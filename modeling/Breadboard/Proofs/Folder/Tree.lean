import Breadboard.Folder.Tree
import Breadboard.Proofs.Sorted

/-!
**Trees of files.**

What an entry of a tree is after a change is told by the ways alone: a change of the list under one
way leaves every other way as it was.  A location leads the same way in every tree that has the same
folders and perhaps more, because only folders are looked at on the way.

Main definitions:

* `Tree.KeepsFolders` — every folder of one tree is a folder of another;
* `Tree.IsName` — a name that a file can have;
* `Location.HasRoom` — two more names fit behind a location.

Main results:

* `Tree.find?_insert`, `Tree.find?_remove` — **a change touches the way that it names, and no
  other**;
* `Tree.walk_mono` — **a location leads the same way in every tree that keeps the folders**;
* `Tree.walk_child` — one step down inside a folder;
* `Tree.listFolder_of_walk` — **a folder lists what is in it**.
-/

set_option autoImplicit false
set_option relaxedAutoImplicit false

namespace Breadboard

namespace Tree

/-! ### Entries -/

theorem find?_of_ne_nil {way : List String} (h : way ≠ []) (t : Tree) :
    t.find? way = (List.find? (fun e => e.1 == way) t).map Prod.snd := if_neg h

theorem find?_cons {way : List String} (h : way ≠ []) (e : List String × Entry) (t : Tree) :
    find? (e :: t) way = if e.1 = way then some e.2 else t.find? way := by
  rw [find?_of_ne_nil h, find?_of_ne_nil h]
  by_cases he : e.1 = way
  · rw [if_pos he, List.find?_cons_of_pos (by simpa using he), Option.map_some]
  · rw [if_neg he, List.find?_cons_of_neg (by simpa using he)]

/-- There is an entry under a way exactly if the list has one. -/
theorem isSome_find?_iff {way : List String} (h : way ≠ []) {t : Tree} :
    (t.find? way).isSome = true ↔ ∃ e ∈ t, e.1 = way := by
  rw [find?_of_ne_nil h, Option.isSome_map, List.find?_isSome]
  simp

/-- **A change touches the way that it names, and no other.** -/
theorem find?_insert {way : List String} (h : way ≠ []) (entry : Entry) (t : Tree)
    (other : List String) :
    (t.insert way entry).find? other = if other = way then some entry else t.find? other := by
  by_cases hother : other = []
  · subst hother
    rw [if_neg (Ne.symm h), find?, find?, if_pos rfl, if_pos rfl]
  induction t with
  | nil =>
      rw [insert, find?_cons hother]
      by_cases ho : other = way
      · rw [if_pos ho, if_pos ho.symm]
      · rw [if_neg ho, if_neg (Ne.symm ho)]
  | cons e t ih =>
      obtain ⟨w, e⟩ := e
      rw [insert]
      by_cases hw : w = way
      · rw [if_pos hw, find?_cons hother, find?_cons hother]
        subst hw
        by_cases ho : w = other
        · simp [ho]
        · simp [ho, Ne.symm ho]
      · rw [if_neg hw, find?_cons hother, find?_cons hother, ih]
        by_cases ho : w = other
        · subst ho
          simp [hw]
        · simp [ho]

theorem find?_insert_self {way : List String} (h : way ≠ []) (entry : Entry) (t : Tree) :
    (t.insert way entry).find? way = some entry := by
  rw [find?_insert h, if_pos rfl]

theorem find?_insert_of_ne {way other : List String} (h : way ≠ []) (hne : other ≠ way)
    (entry : Entry) (t : Tree) : (t.insert way entry).find? other = t.find? other := by
  rw [find?_insert h, if_neg hne]

/-- An entry that is taken out is gone, and no other is. -/
theorem find?_remove {way : List String} (h : way ≠ []) (t : Tree) (other : List String) :
    (t.remove way).find? other = if other = way then none else t.find? other := by
  by_cases hother : other = []
  · subst hother
    rw [if_neg (Ne.symm h), find?, find?, if_pos rfl, if_pos rfl]
  induction t with
  | nil =>
      show find? [] other = _
      rw [find?_of_ne_nil hother]
      split <;> rfl
  | cons e t ih =>
      rw [remove] at ih
      rw [remove, List.filter_cons]
      by_cases he : e.1 = way
      · simp only [he, bne_self_eq_false, Bool.false_eq_true, if_false]
        rw [ih, find?_cons hother, he]
        by_cases ho : other = way
        · rw [if_pos ho, if_pos ho]
        · rw [if_neg ho, if_neg ho, if_neg (Ne.symm ho)]
      · rw [if_pos (by simpa using he), find?_cons hother, find?_cons hother, ih]
        by_cases ho : e.1 = other
        · subst ho
          simp [he]
        · simp [ho]

/-- What is set again is set. -/
theorem insert_insert (way : List String) (first second : Entry) (t : Tree) :
    (t.insert way first).insert way second = t.insert way second := by
  induction t with
  | nil => simp [insert]
  | cons e t ih =>
      obtain ⟨w, e⟩ := e
      by_cases hw : w = way <;> simp [insert, hw, ih]

/-- What is set and taken out again leaves no trace. -/
theorem remove_insert {way : List String} (h : way ≠ []) {t : Tree} (hnew : t.find? way = none)
    (entry : Entry) : (t.insert way entry).remove way = t := by
  have hfree : ∀ e ∈ t, e.1 ≠ way := by
    intro e he hway
    have hsome := (isSome_find?_iff h).2 ⟨e, he, hway⟩
    rw [hnew] at hsome
    cases hsome
  clear hnew
  induction t with
  | nil => simp [insert, remove]
  | cons e t ih =>
      obtain ⟨w, e⟩ := e
      have hw : w ≠ way := hfree (w, e) List.mem_cons_self
      have hrest := ih fun e he => hfree e (List.mem_cons_of_mem _ he)
      rw [remove] at hrest
      rw [insert, if_neg hw, remove, List.filter_cons, if_pos (by simpa using hw), hrest]

/-! ### Ways -/

/-- Every folder of a tree is a folder of another. -/
def KeepsFolders (t t' : Tree) : Prop :=
  ∀ way, t.find? way = some .folder → t'.find? way = some .folder

/-- Nothing but a folder takes the place of a folder. -/
theorem keepsFolders_insert {way : List String} (h : way ≠ []) {t : Tree} {entry : Entry}
    (hentry : t.find? way = some .folder → entry = .folder) :
    KeepsFolders t (t.insert way entry) := by
  intro other hother
  rw [find?_insert h]
  split
  · rename_i hway
    rw [hentry (hway ▸ hother)]
  · exact hother

theorem walkFrom_mono {t t' : Tree} (h : KeepsFolders t t') {names : List String} :
    ∀ {way way' : List String}, t.walkFrom way names = .ok way' →
      t'.walkFrom way names = .ok way' := by
  induction names with
  | nil => exact fun h => h
  | cons name names ih =>
      intro way way' hwalk
      rw [walkFrom] at hwalk ⊢
      split at hwalk
      · cases hwalk
      · rename_i hfolder
        rw [h way hfolder]
        split at hwalk
        · cases hwalk
        · rename_i hshort
          rw [if_neg hshort]
          exact ih hwalk
      · cases hwalk

/-- **A location leads the same way in every tree that keeps the folders.** -/
theorem walk_mono {t t' : Tree} (h : KeepsFolders t t') {l : Location} {way : List String}
    (hwalk : t.walk l = .ok way) : t'.walk l = .ok way := by
  unfold walk at hwalk ⊢
  split at hwalk
  · cases hwalk
  · rename_i hnull
    rw [if_neg hnull]
    split at hwalk
    · cases hwalk
    · rename_i hshort
      rw [if_neg hshort]
      split at hwalk
      · rename_i hfrom
        rw [walkFrom_mono h hfrom]
        exact hwalk
      all_goals cases hwalk

theorem walkFrom_concat {t : Tree} {names : List String} {name : String} {way way' : List String}
    (h : t.walkFrom way names = .ok way') :
    t.walkFrom way (names ++ [name]) = t.walkFrom way' [name] := by
  induction names generalizing way with
  | nil =>
      cases h
      rfl
  | cons next names ih =>
      rw [walkFrom] at h
      rw [List.cons_append, walkFrom]
      split at h
      · cases h
      · split at h
        · cases h
        · rename_i hshort
          rw [if_neg hshort]
          exact ih h
      · cases h

/-- A name that a file can have. -/
structure IsName (name : String) : Prop where
  notUp : name ≠ ".."
  short : name.utf8ByteSize ≤ nameLimit
  noNull : '\x00' ∉ name.toList

end Tree

/-- One step more takes a separator and the name. -/
theorem Location.size_display_child (l : Location) (name : String) :
    (l.child name).display.utf8ByteSize ≤ l.display.utf8ByteSize + 1 + name.utf8ByteSize := by
  have hchild : (l.child name).display = l.root ++ "/".intercalate (l.parts ++ [name]) :=
    if_neg fun h => by simp [child] at h
  rw [hchild, String.utf8ByteSize_append]
  by_cases hparts : l.parts = []
  · have hroot : l.root.utf8ByteSize ≤ l.display.utf8ByteSize := by
      unfold display
      split
      · rename_i h
        rw [h.1]
        exact Nat.zero_le _
      · rw [String.utf8ByteSize_append]
        exact Nat.le_add_right _ _
    rw [hparts, List.nil_append, String.intercalate_singleton]
    omega
  · have hdisplay : l.display = l.root ++ "/".intercalate l.parts := if_neg fun h => hparts h.2
    have hslash : "/".utf8ByteSize = 1 := rfl
    rw [hdisplay, String.intercalate_append_of_ne_nil hparts (List.cons_ne_nil _ _),
      String.intercalate_singleton]
    simp only [String.utf8ByteSize_append]
    omega

/-- Two more names fit behind a location. -/
def Location.HasRoom (l : Location) : Prop :=
  l.display.utf8ByteSize + 2 * (Tree.nameLimit + 1) < Tree.pathLimit

namespace Tree

/-- **One step down inside a folder.** -/
theorem walk_child {t : Tree} {l : Location} {way : List String} {name : String}
    (hwalk : t.walk l = .ok way) (hfolder : t.find? way = some .folder) (hname : IsName name)
    (hroom : (l.child name).display.utf8ByteSize < pathLimit) :
    t.walk (l.child name) = .ok (way ++ [name]) := by
  unfold walk at hwalk ⊢
  split at hwalk
  · cases hwalk
  · rename_i hnull
    have hnull' : ¬ (l.child name).hasNull = true := by
      intro h
      rw [Location.hasNull, Location.child, List.any_append, Bool.or_eq_true] at h
      rcases h with h | h
      · exact hnull h
      · rw [List.any_cons, List.any_nil, Bool.or_false, List.contains_iff_mem] at h
        exact hname.noNull h
    rw [if_neg hnull', if_neg (Nat.not_le.2 hroom)]
    split at hwalk
    · cases hwalk
    · split at hwalk
      · rename_i hfrom
        cases hwalk
        have hroot : rootWay (l.child name) = rootWay l := rfl
        have hparts : (l.child name).parts = l.parts ++ [name] := rfl
        rw [hroot, hparts, walkFrom_concat hfrom, walkFrom, hfolder]
        simp only [if_neg (Nat.not_lt.2 hname.short), if_neg hname.notUp, walkFrom]
      all_goals cases hwalk

/-! ### What is there -/

theorem entry?_of_walk {t : Tree} {l : Location} {way : List String} (h : t.walk l = .ok way) :
    t.entry? l = .ok (t.find? way) := by
  unfold entry?
  rw [h]

theorem isFolder_of_walk {t : Tree} {l : Location} {way : List String} (h : t.walk l = .ok way) :
    t.isFolder l = .ok (decide (t.find? way = some .folder)) := by
  rw [isFolder, entry?_of_walk h]
  rfl

/-! ### Lists -/

/-- **A folder lists what is in it**, in order. -/
theorem listFolder_of_walk {t : Tree} {l : Location} {way : List String} (hwalk : t.walk l = .ok way)
    (hfolder : t.find? way = some .folder) :
    ∃ names, t.listFolder l = .ok names ∧ names.Pairwise (fun a b => Sorted.textLt a b = true)
      ∧ ∀ name, name ∈ names ↔ (t.find? (way ++ [name])).isSome = true := by
  refine ⟨Sorted.ofList Sorted.textLt (t.filterMap fun e =>
    if e.1 ≠ [] ∧ e.1.dropLast = way then e.1.getLast? else none), ?_,
    Sorted.pairwise_ofList Sorted.isOrder_textLt _, ?_⟩
  · unfold listFolder
    rw [hwalk]
    simp only [bind, Except.bind, hfolder]
    rfl
  · intro name
    rw [Sorted.mem_ofList Sorted.isOrder_textLt, isSome_find?_iff (by simp), List.mem_filterMap]
    refine exists_congr fun e => and_congr_right fun _ => ?_
    constructor
    · intro h
      split at h
      · rename_i hway
        obtain ⟨before, hbefore⟩ := List.getLast?_eq_some_iff.1 h
        rw [hbefore, List.dropLast_concat] at hway
        rw [hbefore, hway.2]
      · cases h
    · intro h
      rw [h, if_pos ⟨by simp, List.dropLast_concat⟩, List.getLast?_concat]

end Tree

end Breadboard
