import Mathlib.Data.List.Basic
import Breadboard.Proofs.Blueprint.Writing

/-!
**Damaged descriptions.**

Whatever the folder of a store holds, an entry is passed over unless its description can be read or
stops the reader.  So long as nothing stops the reader, the descriptions that can be read are all
that counts, and what a name is asked for depends on its own folder alone.  A description that stops
the reader makes the whole store fail: bytes that are no text, an integer that is too long, or a
document that is too deep.

Main definitions:

* `Store.IsFirst` — the first folder with the name in its description;
* `Store.Serves` — requests for the name of a folder go to this folder;
* `Store.Reads` — a store shows the descriptions that can be read.

Main results:

* `Store.Stands.reads` — **what does not stop the reader is passed over**;
* `Store.Stands.reads_or_stops` — **a store shows the descriptions that can be read, or the first
  description that stops the reader makes it fail**.
-/

set_option autoImplicit false
set_option relaxedAutoImplicit false

namespace Breadboard

namespace Store

/-- The first folder with the name in its description. -/
def IsFirst (t : Tree) (way : List String) (folder : String) (description : Description) : Prop :=
  Describes t way folder description ∧ ∀ other d, Sorted.textLt other folder = true →
    Describes t way other d → d.name ≠ description.name

/-- Requests for the name of a folder go to this folder, and need nothing of the others.  Files can
be written in it if no temporary file is left over in their way. -/
structure Serves (s : Store) (d : Disk) (way : List String) (folder : String)
    (description : Description) : Prop where
  find : s.find? d.tree description.name = .ok (some (s.folder.child folder, description))
  load : ∀ text document blueprint,
    d.tree.find? (way ++ [folder, blueprintFile]) = some (.file text) →
    Json.read (String.ofList (Tree.plainLines text.toList)) = .ok document →
    Blueprint.check document = .ok blueprint → s.load d.tree description.name = .ok blueprint
  describe : ∀ text written,
    d.tree.find? (way ++ [folder, Disk.temporaryName descriptionFile]) = none →
    Disk.documentText (Description.of text folder description.name).document = .ok written →
    s.describe description.name text d = .ok () { d with
      tree := d.tree.insert (way ++ [folder, descriptionFile]) (.file written) }
  kept : ∀ fresh document, s.saveIn fresh description.name document false d = .ok false d
  save : ∀ fresh document written written',
    (∀ file, IsFile file → d.tree.find? (way ++ [folder, Disk.temporaryName file]) = none) →
    d.tree.find? (way ++ [folder, blueprintFile]) ≠ some .folder →
    Disk.documentText document = .ok written →
    Disk.documentText (Description.of description.text folder description.name).document
      = .ok written' →
    s.saveIn fresh description.name document true d = .ok true { d with
      tree := (d.tree.insert (way ++ [folder, blueprintFile]) (.file written)).insert
        (way ++ [folder, descriptionFile]) (.file written') }

/-- A store shows the descriptions that can be read, in the order of their folders: their names are
listed, a name goes to the first folder that has it, and a name that none of them has is new. -/
structure Reads (s : Store) (d : Disk) (way : List String) : Prop where
  names : ∃ described : List (String × Description),
    s.names d.tree = .ok (described.map fun e => e.2.name)
      ∧ described.Pairwise (fun a b => Sorted.textLt a.1 b.1 = true)
      ∧ ∀ folder description, (folder, description) ∈ described
          ↔ Describes d.tree way folder description
  first : ∀ folder description, IsFirst d.tree way folder description →
    s.Serves d way folder description
  isFirst : ∀ folder description, Describes d.tree way folder description →
    ∃ first description', IsFirst d.tree way first description' ∧ description'.name = description.name
  unknown : ∀ name, (∀ folder d', Describes d.tree way folder d' → d'.name ≠ name) →
    s.find? d.tree name = .ok none
  new : ∀ name fresh document written written' overwrite,
    (∀ folder d', Describes d.tree way folder d' → d'.name ≠ name) → Tree.IsName fresh →
    (∀ below, d.tree.find? (way ++ fresh :: below) = none) →
    Disk.documentText document = .ok written →
    Disk.documentText (Description.of Description.noText fresh name).document = .ok written' →
    s.saveIn fresh name document overwrite d = .ok true
      ⟨((d.tree.insert (way ++ [fresh]) .folder).insert (way ++ [fresh, blueprintFile])
        (.file written)).insert (way ++ [fresh, descriptionFile]) (.file written'), d.created + 1⟩

variable {s : Store} {d : Disk} {t : Tree} {way : List String} {folder name : String}
  {description : Description} {fault : Fault}

theorem Stops.isFolder (h : Stops t way folder fault) : t.find? (way ++ [folder]) = some .folder := by
  cases h <;> assumption

/-- The file of a description that can be read is no folder. -/
theorem Describes.file_ne (h : Describes t way folder description) :
    t.find? (way ++ [folder, descriptionFile]) ≠ some .folder := by
  obtain ⟨_, _, _, hfile, _⟩ := h
  rw [hfile]
  exact nofun

/-- What there is in a folder of a store is in some folder for the first time. -/
theorem Stands.exists_first (h : s.Stands t way) {p : String → Prop}
    (hp : ∀ folder, p folder → (t.find? (way ++ [folder])).isSome = true) (hfolder : p folder) :
    ∃ first, p first ∧ ∀ other, Sorted.textLt other first = true → ¬ p other := by
  classical
  obtain ⟨folders, _, hsorted, hmem⟩ := h.entries_eq
  have hsome : (folders.find? fun n => decide (p n)).isSome = true := by
    rw [List.find?_isSome]
    exact ⟨folder, (hmem folder).2 (hp folder hfolder), decide_eq_true hfolder⟩
  obtain ⟨first, hfirst⟩ := Option.isSome_iff_exists.1 hsome
  obtain ⟨hpfirst, before, after, rfl, hbefore⟩ := List.find?_eq_some_iff_append.1 hfirst
  refine ⟨first, of_decide_eq_true hpfirst, fun other hlt hother => ?_⟩
  -- what comes in front of the first one in order stands in front of it
  rcases List.mem_append.1 ((hmem other).2 (hp other hother)) with hin | hin
  · have := hbefore other hin
    rw [decide_eq_true hother] at this
    cases this
  · rcases List.mem_cons.1 hin with rfl | hin
    · rw [Sorted.isOrder_textLt.irrefl] at hlt
      cases hlt
    · have hafter := (List.pairwise_cons.1 (List.pairwise_append.1 hsorted).2.1).1 other hin
      have hloop := Sorted.isOrder_textLt.trans _ _ _ hlt hafter
      rw [Sorted.isOrder_textLt.irrefl] at hloop
      cases hloop

/-- **A folder that comes first serves its name.** -/
theorem Stands.serves (h : s.Stands d.tree way)
    (hstops : ∀ folder fault, ¬ Stops d.tree way folder fault)
    (hfirst : IsFirst d.tree way folder description) : s.Serves d way folder description := by
  obtain ⟨hdescribes, hothers⟩ := hfirst
  have hfolder := hdescribes.1
  have hfind := h.find?_eq_some (fun other hlt => ⟨hstops other, fun d' => hothers other d' hlt⟩)
    hdescribes
  exact {
    find := hfind
    load := fun text document blueprint => h.load_ok hfind hfolder
    describe := fun text written hfree => h.describe_ok hfind hfolder hfree hdescribes.file_ne
    kept := saveIn_kept hfind
    save := fun fresh document written written' hfree hplace hwritten hwritten' => by
      refine h.saveIn_over hfind hfolder hfree ?_ hwritten hwritten' fresh
      rintro file (rfl | rfl)
      · exact hplace
      · exact hdescribes.file_ne }

/-- **What does not stop the reader is passed over.** -/
theorem Stands.reads (h : s.Stands d.tree way)
    (hstops : ∀ folder fault, ¬ Stops d.tree way folder fault) : s.Reads d way where
  names := h.names_eq hstops
  first _ _ := h.serves hstops
  isFirst folder description hdescribes := by
    obtain ⟨first, ⟨description', hfirst, hname⟩, hbefore⟩ := h.exists_first
      (p := fun folder => ∃ d', Describes d.tree way folder d' ∧ d'.name = description.name)
      (fun folder ⟨d', hd', _⟩ => by rw [hd'.1]; rfl) ⟨description, hdescribes, rfl⟩
    refine ⟨first, description', ⟨hfirst, fun other d' hlt hd' e => ?_⟩, hname⟩
    exact hbefore other hlt ⟨d', hd', e.trans hname⟩
  unknown name hname := h.find?_eq_none fun folder => ⟨hstops folder, fun d' => hname folder d'⟩
  new name fresh document written written' overwrite hname hisName hfree hwritten hwritten' :=
    h.saveIn_new (h.find?_eq_none fun folder => ⟨hstops folder, fun d' => hname folder d'⟩) hisName hfree
      hwritten hwritten' overwrite

/-- **A store shows the descriptions that can be read, or the first description that stops the
reader makes it fail**: the names are not listed, and a name is not found unless a folder in front
has it. -/
theorem Stands.reads_or_stops (h : s.Stands d.tree way) :
    s.Reads d way ∨ ∃ folder fault, Stops d.tree way folder fault ∧ s.names d.tree = .error fault
      ∧ ∀ name, (∀ other d', Sorted.textLt other folder = true → Describes d.tree way other d' →
          d'.name ≠ name) → s.find? d.tree name = .error fault := by
  by_cases hstops : ∃ folder, ∃ fault, Stops d.tree way folder fault
  · obtain ⟨folder, hfolder⟩ := hstops
    obtain ⟨first, ⟨fault, hfirst⟩, hbefore⟩ := h.exists_first
      (p := fun folder => ∃ fault, Stops d.tree way folder fault)
      (fun folder ⟨fault, hfault⟩ => by rw [hfault.isFolder]; rfl) hfolder
    have hnone (other : String) (hlt : Sorted.textLt other first = true) (fault : Fault) :
        ¬ Stops d.tree way other fault := fun hother => hbefore other hlt ⟨fault, hother⟩
    refine .inr ⟨first, fault, hfirst, h.names_eq_error hnone hfirst, fun name hname => ?_⟩
    exact h.find?_eq_error (fun other hlt => ⟨hnone other hlt, fun d' => hname other d' hlt⟩) hfirst
  · exact .inl (h.reads fun folder fault hstop => hstops ⟨folder, fault, hstop⟩)

/-- A store with a stray file, a folder without a description, a description that is no document and
one that is no text. -/
theorem reads_or_stops_mixed :
    let s : Store := ⟨⟨"", ["bp"]⟩⟩
    let d : Disk := ⟨[(["bp"], .folder), (["bp", "a"], .file "stray"), (["bp", "b"], .folder),
      (["bp", "c"], .folder), (["bp", "c", "description.json"], .file "no document"),
      (["bp", "d"], .folder), (["bp", "d", "description.json"], .binary)], 0⟩
    s.Reads d ["bp"] ∨ ∃ folder fault, Stops d.tree ["bp"] folder fault ∧ s.names d.tree = .error fault
      ∧ ∀ name, (∀ other d', Sorted.textLt other folder = true → Describes d.tree ["bp"] other d' →
          d'.name ≠ name) → s.find? d.tree name = .error fault := by
  intro s d
  refine Stands.reads_or_stops ⟨rfl, rfl, by rw [Location.HasRoom]; decide, fun name hname => ?_⟩
  obtain ⟨e, he, hway⟩ := (Tree.isSome_find?_iff (by simp)).1 hname
  have hnames : ∀ e ∈ d.tree, ∀ n, e.1 = ["bp", n] → n = "a" ∨ n = "b" ∨ n = "c" ∨ n = "d" := by
    simp [d]
  rcases hnames e he name hway with rfl | rfl | rfl | rfl <;> exact ⟨by decide, by decide, by decide⟩

/-- A description whose bytes are no text is not passed over: the names of the store are not listed,
and no name is found. -/
theorem undecodable_not_skipped :
    let s : Store := ⟨⟨"", ["bp"]⟩⟩
    let t : Tree := [(["bp"], .folder), (["bp", "broken"], .folder),
      (["bp", "broken", "description.json"], .binary)]
    s.names t = .error .undecodableText ∧ s.find? t "lamp" = .error .undecodableText := ⟨rfl, rfl⟩

end Store

end Breadboard
