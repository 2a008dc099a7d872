import Breadboard.Proofs.Blueprint.Documents
import Breadboard.Proofs.Blueprint.Writing

/-!
**What a store keeps.**

A store that only its own requests have changed keeps, for each of its folders, a name, a blueprint
and a description text.  The files below the folder of the store are determined by what it keeps,
and every request is a change of what is kept: no request leaves a file of another kind.

Main definitions:

* `Store.Item`, `Store.Shelf` — what is kept in one folder, and in all of them;
* `Store.Shelf.layout` — the files that keep it;
* `Store.Keeps` — a store keeps something.

Main results:

* `Store.Keeps.find?_eq_some`, `Store.Keeps.find?_eq_none`, `Store.Keeps.names_eq`,
  `Store.Keeps.load_eq` — **what is found is what is kept**;
* `Store.Keeps.describe_ok`, `Store.Keeps.save_over`, `Store.Keeps.save_new` — **requests that
  change something put one item and leave all others**. -/

set_option autoImplicit false
set_option relaxedAutoImplicit false

namespace Breadboard

namespace Store

/-- What is kept in a folder of a store. -/
structure Item where
  name : String
  blueprint : Blueprint
  text : String

namespace Item

/-- The description of an item that is kept in the given folder. -/
def description (item : Item) (folder : String) : Description := .of item.text folder item.name

/-- The files that keep an item in the given folder. -/
def file? (item : Item) (folder file : String) : Option Entry :=
  if file = blueprintFile then some (.file (item.blueprint.document.write .unicode))
  else if file = descriptionFile then some (.file ((item.description folder).document.write .unicode))
  else none

theorem file?_blueprintFile (item : Item) (folder : String) :
    item.file? folder blueprintFile = some (.file (item.blueprint.document.write .unicode)) := if_pos rfl

theorem file?_descriptionFile (item : Item) (folder : String) :
    item.file? folder descriptionFile
      = some (.file ((item.description folder).document.write .unicode)) := by
  rw [file?, if_neg (by decide), if_pos rfl]

/-- An item that can be kept in the given folder: both of its documents can be written and are read
as they were written. -/
structure Fits (item : Item) (folder : String) : Prop where
  recorded : item.blueprint.IsRecorded
  roundTrips : item.blueprint.document.RoundTrips
  text : Unpaired.occursIn item.text = false
  name : Unpaired.occursIn item.name = false
  isName : Tree.IsName folder
  encodable : Unpaired.occursIn folder = false

theorem Fits.description {item : Item} {folder : String} (h : item.Fits folder) :
    (item.description folder).document.RoundTrips := by
  have htype : Unpaired.occursIn "Blueprint" = false := by decide
  exact Description.roundTrips ⟨h.text, h.encodable, h.name, htype, Numeral.isWritable_zero⟩

end Item

/-- What is kept in the folders of a store. -/
abbrev Shelf := String → Option Item

namespace Shelf

/-- The files that keep what is kept, under the ways from the folder of the store. -/
def layout (shelf : Shelf) : List String → Option Entry
  | [] => some .folder
  | [folder] => (shelf folder).map fun _ => .folder
  | [folder, file] => (shelf folder).bind fun item => item.file? folder file
  | _ => none

/-- An item is put in the place of what was kept in a folder. -/
def put (shelf : Shelf) (folder : String) (item : Item) : Shelf :=
  fun other => if other = folder then some item else shelf other

@[simp] theorem put_self (shelf : Shelf) (folder : String) (item : Item) :
    shelf.put folder item folder = some item := if_pos rfl

theorem put_of_ne (shelf : Shelf) {folder other : String} (h : other ≠ folder) (item : Item) :
    shelf.put folder item other = shelf other := if_neg h

/-- What is kept after something has been put is that or was kept before. -/
theorem put_eq_some {shelf : Shelf} {folder other : String} {item item' : Item}
    (h : shelf.put folder item other = some item') :
    (other = folder ∧ item' = item) ∨ (other ≠ folder ∧ shelf other = some item') := by
  by_cases hother : other = folder
  · subst hother
    rw [put_self] at h
    exact .inl ⟨rfl, (Option.some.inj h).symm⟩
  · rw [put_of_ne shelf hother] at h
    exact .inr ⟨hother, h⟩

/-- What is put last counts. -/
theorem put_put (shelf : Shelf) (folder : String) (first second : Item) :
    (shelf.put folder first).put folder second = shelf.put folder second := by
  funext other
  by_cases h : other = folder
  · rw [h, put_self, put_self]
  · rw [put_of_ne _ h, put_of_ne _ h, put_of_ne _ h]

end Shelf

/-- A store keeps something: the files below its folder are those that keep it, and everything else
is as in the tree `before`. -/
structure Keeps (s : Store) (before : Tree) (way : List String) (shelf : Shelf) (t : Tree) : Prop where
  walk : t.walk s.folder = .ok way
  room : s.folder.HasRoom
  inside : ∀ below, t.find? (way ++ below) = shelf.layout below
  outside : ∀ other, ¬ way <+: other → t.find? other = before.find? other
  fits : ∀ folder item, shelf folder = some item → item.Fits folder
  unique : ∀ folder folder' item item', shelf folder = some item → shelf folder' = some item' →
    item.name = item'.name → folder = folder'

namespace Keeps

variable {s : Store} {before t : Tree} {d : Disk} {way : List String} {shelf : Shelf}
  {folder name : String} {item : Item}

/-- A folder in which nothing is kept is not there. -/
theorem find?_folder (h : s.Keeps before way shelf t) (folder : String) :
    t.find? (way ++ [folder]) = (shelf folder).map fun _ => .folder := h.inside [folder]

theorem find?_file (h : s.Keeps before way shelf t) (folder file : String) :
    t.find? (way ++ [folder, file]) = (shelf folder).bind fun item => item.file? folder file :=
  h.inside [folder, file]

/-- The folder of an item is there. -/
theorem find?_item (h : s.Keeps before way shelf t) (hitem : shelf folder = some item) :
    t.find? (way ++ [folder]) = some .folder := by
  rw [h.find?_folder, hitem]
  rfl

theorem stands (h : s.Keeps before way shelf t) : s.Stands t way where
  walk := h.walk
  folder := by
    have hself := h.inside []
    rwa [List.append_nil] at hself
  room := h.room
  named folder hsome := by
    rw [h.find?_folder, Option.isSome_map, Option.isSome_iff_exists] at hsome
    obtain ⟨item, hitem⟩ := hsome
    exact (h.fits folder item hitem).isName

/-! ### What is found -/

/-- The descriptions of a store are those of what it keeps. -/
theorem describes_iff (h : s.Keeps before way shelf t) {description : Description} :
    Describes t way folder description
      ↔ ∃ item, shelf folder = some item ∧ description = item.description folder := by
  have hread {item : Item} (hitem : shelf folder = some item) :
      t.find? (way ++ [folder, descriptionFile])
        = some (.file ((item.description folder).document.write .unicode)) := by
    rw [h.find?_file, hitem, Option.bind_some, Item.file?_descriptionFile]
  constructor
  · rintro ⟨hfolder, text, document, hfile, hdocument, hcheck⟩
    rw [h.find?_folder, Option.map_eq_some_iff] at hfolder
    obtain ⟨item, hitem, _⟩ := hfolder
    refine ⟨item, hitem, ?_⟩
    cases hfile.symm.trans (hread hitem)
    rw [Json.plainLines_write, (h.fits folder item hitem).description.readable] at hdocument
    cases hdocument
    rw [Description.check_document] at hcheck
    exact (Except.ok.inj hcheck).symm
  · rintro ⟨item, hitem, rfl⟩
    refine ⟨h.find?_item hitem, _, _, hread hitem, ?_, Description.check_document _⟩
    rw [Json.plainLines_write]
    exact (h.fits folder item hitem).description.readable

/-- No description of a store stops the reader. -/
theorem not_stops (h : s.Keeps before way shelf t) (folder : String) (fault : Fault) :
    ¬ Stops t way folder fault := by
  intro hstops
  have hfolder : t.find? (way ++ [folder]) = some .folder := by cases hstops <;> assumption
  rw [h.find?_folder, Option.map_eq_some_iff] at hfolder
  obtain ⟨item, hitem, _⟩ := hfolder
  obtain ⟨_, text, document, hfile, hread, _⟩ := h.describes_iff.2 ⟨item, hitem, rfl⟩
  cases hstops with
  | undecodable _ hbinary => cases hfile.symm.trans hbinary
  | longInteger _ hfile' hflaw =>
      cases hfile.symm.trans hfile'
      cases hread.symm.trans hflaw
  | tooDeep _ hfile' hflaw =>
      cases hfile.symm.trans hfile'
      cases hread.symm.trans hflaw

/-- **A name is found in the folder in which it is kept.** -/
theorem find?_eq_some (h : s.Keeps before way shelf t) (hitem : shelf folder = some item) :
    s.find? t item.name = .ok (some (s.folder.child folder, item.description folder)) := by
  have hdescribes := h.describes_iff.2 ⟨item, hitem, rfl⟩
  refine h.stands.find?_eq_some (fun other hlt => ⟨h.not_stops other, ?_⟩) hdescribes
  -- another folder with the same name would be the same folder
  intro description hother e
  obtain ⟨item', hitem', rfl⟩ := h.describes_iff.1 hother
  have hsame := h.unique other folder item' item hitem' hitem e
  rw [hsame, Sorted.isOrder_textLt.irrefl] at hlt
  cases hlt

/-- **A name that is not kept is not found.** -/
theorem find?_eq_none (h : s.Keeps before way shelf t)
    (hname : ∀ folder item, shelf folder = some item → item.name ≠ name) :
    s.find? t name = .ok none := by
  refine h.stands.find?_eq_none fun other => ⟨h.not_stops other, ?_⟩
  intro description hother
  obtain ⟨item, hitem, rfl⟩ := h.describes_iff.1 hother
  exact hname other item hitem

/-- **The names are those that are kept, each of them once.** -/
theorem names_eq (h : s.Keeps before way shelf t) :
    ∃ names, s.names t = .ok names ∧ names.Nodup
      ∧ ∀ name, name ∈ names ↔ ∃ folder item, shelf folder = some item ∧ item.name = name := by
  obtain ⟨described, hnames, hsorted, hmem⟩ := h.stands.names_eq h.not_stops
  refine ⟨_, hnames, ?_, fun name => ?_⟩
  · rw [List.Nodup, List.pairwise_map]
    refine hsorted.imp_of_mem ?_
    rintro ⟨folder, description⟩ ⟨folder', description'⟩ hd hd' hlt e
    obtain ⟨item, hitem, rfl⟩ := h.describes_iff.1 ((hmem _ _).1 hd)
    obtain ⟨item', hitem', rfl⟩ := h.describes_iff.1 ((hmem _ _).1 hd')
    have hsame : folder = folder' := h.unique folder folder' item item' hitem hitem' e
    rw [hsame, Sorted.isOrder_textLt.irrefl] at hlt
    cases hlt
  · rw [List.mem_map]
    constructor
    · rintro ⟨⟨folder, description⟩, hd, rfl⟩
      obtain ⟨item, hitem, rfl⟩ := h.describes_iff.1 ((hmem _ _).1 hd)
      exact ⟨folder, item, hitem, rfl⟩
    · rintro ⟨folder, item, hitem, rfl⟩
      exact ⟨(folder, item.description folder),
        (hmem _ _).2 (h.describes_iff.2 ⟨item, hitem, rfl⟩), rfl⟩

/-- **The blueprint of a name is the one that is kept.** -/
theorem load_eq (h : s.Keeps before way shelf t) (hitem : shelf folder = some item) :
    s.load t item.name = .ok item.blueprint := by
  have hfits := h.fits folder item hitem
  have hfile : t.find? (way ++ [folder, blueprintFile])
      = some (.file (item.blueprint.document.write .unicode)) := by
    rw [h.find?_file, hitem, Option.bind_some, Item.file?_blueprintFile]
  refine h.stands.load_ok (h.find?_eq_some hitem) (h.find?_item hitem) hfile ?_
    (Blueprint.check_document hfits.recorded)
  rw [Json.plainLines_write]
  exact hfits.roundTrips.readable

/-! ### What is changed -/

/-- No temporary file is there. -/
theorem find?_temporaryName (h : s.Keeps before way shelf t) {file : String} (hfile : IsFile file)
    (folder : String) : t.find? (way ++ [folder, Disk.temporaryName file]) = none := by
  have hblueprint : Disk.temporaryName file ≠ blueprintFile := by
    rcases hfile with rfl | rfl <;> decide
  have hdescription : Disk.temporaryName file ≠ descriptionFile := by
    rcases hfile with rfl | rfl <;> decide
  rw [h.find?_file]
  cases shelf folder with
  | none => rfl
  | some item => rw [Option.bind_some, Item.file?, if_neg hblueprint, if_neg hdescription]

/-- What is in the folder of an item is no folder. -/
theorem find?_file_ne (h : s.Keeps before way shelf t) (folder file : String) :
    t.find? (way ++ [folder, file]) ≠ some .folder := by
  rw [h.find?_file]
  cases shelf folder with
  | none => exact nofun
  | some item =>
      rw [Option.bind_some, Item.file?]
      split
      · exact nofun
      · split <;> exact nofun

/-- What is kept after an item with its own name has been put into a folder. -/
theorem fits_put (h : s.Keeps before way shelf t) (hfits : item.Fits folder) :
    ∀ folder' item', shelf.put folder item folder' = some item' → item'.Fits folder' := by
  intro folder' item' hitem'
  rcases Shelf.put_eq_some hitem' with ⟨rfl, rfl⟩ | ⟨_, hitem'⟩
  · exact hfits
  · exact h.fits folder' item' hitem'

theorem unique_put (h : s.Keeps before way shelf t)
    (hname : ∀ folder' item', folder' ≠ folder → shelf folder' = some item' →
      item'.name ≠ item.name) :
    ∀ folder' folder'' item' item'', shelf.put folder item folder' = some item' →
      shelf.put folder item folder'' = some item'' → item'.name = item''.name → folder' = folder'' := by
  intro folder' folder'' item' item'' h' h'' e
  rcases Shelf.put_eq_some h' with ⟨hf', hi'⟩ | ⟨hf', h'⟩ <;>
    rcases Shelf.put_eq_some h'' with ⟨hf'', hi''⟩ | ⟨hf'', h''⟩
  · exact hf'.trans hf''.symm
  · exact absurd (hi' ▸ e.symm) (hname folder'' item'' hf'' h'')
  · exact absurd (hi'' ▸ e) (hname folder' item' hf' h')
  · exact h.unique folder' folder'' item' item'' h' h'' e

/-- **A file in the folder of an item is replaced**, so that the folder keeps another item of the
same name. -/
theorem insert_file (h : s.Keeps before way shelf t) (hitem : shelf folder = some item)
    {file text : String} {item' : Item} (hfits : item'.Fits folder) (hname : item'.name = item.name)
    (hfile : item'.file? folder file = some (.file text))
    (hothers : ∀ other, other ≠ file → item'.file? folder other = item.file? folder other) :
    s.Keeps before way (shelf.put folder item') (t.insert (way ++ [folder, file]) (.file text)) where
  walk := (h.stands.insert_file (h.find?_file_ne folder file) text).walk
  room := h.room
  inside below := by
    rw [find?_insert_below (List.cons_ne_nil _ _), h.inside]
    match below with
    | [] => rfl
    | [folder'] =>
        rw [if_neg (by simp)]
        by_cases hfolder : folder' = folder
        · simp [Shelf.layout, Shelf.put, hfolder, hitem]
        · simp [Shelf.layout, Shelf.put, hfolder]
    | [folder', file'] =>
        by_cases hfolder : folder' = folder
        · subst hfolder
          simp only [Shelf.layout, Shelf.put_self, hitem, Option.bind_some]
          by_cases hother : file' = file
          · rw [if_pos (by rw [hother]), hother, hfile]
          · rw [if_neg (by simp [hother]), hothers file' hother]
        · rw [if_neg (by simp [hfolder]), Shelf.layout, Shelf.layout, Shelf.put_of_ne shelf hfolder]
    | _ :: _ :: _ :: _ => simp [Shelf.layout]
  outside other hother := by
    rw [find?_insert_outside (List.cons_ne_nil _ _) _ hother, h.outside other hother]
  fits := h.fits_put hfits
  unique := h.unique_put fun folder' item'' hfolder hitem'' e =>
    hfolder (h.unique folder' folder item'' item hitem'' hitem (e.trans hname))

/-- **A description is replaced.** -/
theorem describe_ok (h : s.Keeps before way shelf d.tree) (hitem : shelf folder = some item)
    {text : String} (htext : Unpaired.occursIn text = false) :
    ∃ t, s.describe item.name text d = .ok () { d with tree := t }
      ∧ s.Keeps before way (shelf.put folder { item with text := text }) t := by
  have hfits : Item.Fits { item with text := text } folder :=
    { h.fits folder item hitem with text := htext }
  have hdescribe := h.stands.describe_ok (h.find?_eq_some hitem) (h.find?_item hitem)
    (h.find?_temporaryName (.inr rfl) folder) (h.find?_file_ne folder _) hfits.description.documentText
  have hkeeps := h.insert_file hitem hfits rfl (Item.file?_descriptionFile _ folder)
    fun other hother => by rw [Item.file?, Item.file?, if_neg hother, if_neg hother]
  exact ⟨_, hdescribe, hkeeps⟩

/-- **A blueprint is replaced, and its description text stays.** -/
theorem save_over (h : s.Keeps before way shelf d.tree) (hitem : shelf folder = some item)
    (fresh : String) {blueprint : Blueprint} (hrecorded : blueprint.IsRecorded)
    (hroundTrips : blueprint.document.RoundTrips) :
    ∃ t, s.saveIn fresh item.name blueprint.document true d = .ok true { d with tree := t }
      ∧ s.Keeps before way (shelf.put folder { item with blueprint := blueprint }) t := by
  have hfits : Item.Fits { item with blueprint := blueprint } folder :=
    { h.fits folder item hitem with recorded := hrecorded, roundTrips := hroundTrips }
  have hsave := h.stands.saveIn_over (h.find?_eq_some hitem) (h.find?_item hitem)
    (fun file hfile => h.find?_temporaryName hfile folder) (fun file _ => h.find?_file_ne folder file)
    hroundTrips.documentText hfits.description.documentText fresh
  have hblueprint := h.insert_file hitem hfits rfl (Item.file?_blueprintFile _ folder)
    fun other hother => by rw [Item.file?, Item.file?, if_neg hother, if_neg hother]; rfl
  -- the description that is written again is the one that was there
  have hboth := hblueprint.insert_file (Shelf.put_self _ _ _) hfits rfl
    (Item.file?_descriptionFile _ folder) fun _ _ => rfl
  rw [Shelf.put_put] at hboth
  exact ⟨_, hsave, hboth⟩

/-- Nothing is in a folder that is not kept. -/
theorem find?_free (h : s.Keeps before way shelf t) (hfree : shelf folder = none)
    (below : List String) : t.find? (way ++ folder :: below) = none := by
  rw [h.inside]
  match below with
  | [] => rw [Shelf.layout, hfree]; rfl
  | [_] => rw [Shelf.layout, hfree]; rfl
  | _ :: _ :: _ => rfl

/-- **A folder of its own is made for an item.** -/
theorem insert_item (h : s.Keeps before way shelf t) (hfree : shelf folder = none)
    (hfits : item.Fits folder)
    (hname : ∀ folder item', shelf folder = some item' → item'.name ≠ item.name) :
    s.Keeps before way (shelf.put folder item)
      (((t.insert (way ++ [folder]) .folder).insert (way ++ [folder, blueprintFile])
        (.file (item.blueprint.document.write .unicode))).insert (way ++ [folder, descriptionFile])
          (.file ((item.description folder).document.write .unicode))) where
  walk := by
    have hempty (file : String) :
        (t.insert (way ++ [folder]) .folder).find? (way ++ [folder, file]) = none := by
      rw [find?_insert_below (List.cons_ne_nil _ _), if_neg (by simp), h.find?_free hfree]
    refine (((h.stands.insert_folder hfits.isName).insert_file ?_ _).insert_file ?_ _).walk
    · rw [hempty]
      exact nofun
    · rw [find?_insert_below (List.cons_ne_nil _ _),
        if_neg (by simp [descriptionFile, blueprintFile]), hempty]
      exact nofun
  room := h.room
  inside below := by
    rw [find?_insert_below (List.cons_ne_nil _ _), find?_insert_below (List.cons_ne_nil _ _),
      find?_insert_below (List.cons_ne_nil _ _), h.inside]
    match below with
    | [] => rfl
    | [folder'] =>
        by_cases hfolder : folder' = folder <;> simp [Shelf.layout, Shelf.put, hfolder]
    | [folder', file'] =>
        by_cases hfolder : folder' = folder
        · subst hfolder
          by_cases hdescription : file' = descriptionFile
          · subst hdescription
            simp [Shelf.layout, Item.file?_descriptionFile]
          · by_cases hblueprint : file' = blueprintFile
            · subst hblueprint
              simp [Shelf.layout, Item.file?_blueprintFile, hdescription]
            · simp [Shelf.layout, Item.file?, hdescription, hblueprint, hfree]
        · simp [Shelf.layout, hfolder, Shelf.put_of_ne shelf hfolder]
    | _ :: _ :: _ :: _ => simp [Shelf.layout]
  outside other hother := by
    rw [find?_insert_outside (List.cons_ne_nil _ _) _ hother,
      find?_insert_outside (List.cons_ne_nil _ _) _ hother,
      find?_insert_outside (List.cons_ne_nil _ _) _ hother, h.outside other hother]
  fits := h.fits_put hfits
  unique := h.unique_put fun folder' item' _ => hname folder' item'

/-- **A blueprint with a new name gets a folder of its own.** -/
theorem save_new (h : s.Keeps before way shelf d.tree)
    (hname : ∀ folder item, shelf folder = some item → item.name ≠ name) {fresh : String}
    (hfresh : shelf fresh = none) {blueprint : Blueprint}
    (hfits : Item.Fits ⟨name, blueprint, Description.noText⟩ fresh) (overwrite : Bool) :
    ∃ t, s.saveIn fresh name blueprint.document overwrite d = .ok true ⟨t, d.created + 1⟩
      ∧ s.Keeps before way (shelf.put fresh ⟨name, blueprint, Description.noText⟩) t := by
  have hsave := h.stands.saveIn_new (h.find?_eq_none hname) hfits.isName (h.find?_free hfresh)
    hfits.roundTrips.documentText hfits.description.documentText overwrite
  exact ⟨_, hsave, h.insert_item hfresh hfits hname⟩

end Keeps

end Store

end Breadboard
