import Mathlib.Data.List.Induction
import Breadboard.Proofs.Blueprint.Shelf

/-!
**A store is a map from names to blueprints and texts.**

What a store answers is determined by what it was asked before.  A name has the blueprint with which
it was saved last, the description text that it was given last, and the folder that was made for it
when it was saved first.  The names of the folders come from outside; nothing depends on their
order, and all that is asked of them is that none comes twice.

Main definitions:

* `Store.Request`, `Store.Answer` — what is asked of a store and what it answers;
* `Store.serve`, `Store.serveAll` — a request, and several in a row, where a failure ends a request
  but not those behind it;
* `Store.History` — requests with their answers;
* `History.blueprint?`, `History.text`, `History.folder?` — what a history says about a name;
* `Store.Reflects` — a store shows what a history says;
* `Request.Answered` — a request is answered as a history says;
* `Request.Spares` — a request leaves what is not asked about;
* `History.Tells` — a history says what is kept.

Main results:

* `Store.Keeps.serve` — **a request changes what is kept as its answer says**;
* `Store.exists_keeps` — after any number of requests, what is kept is what their history says;
* `Store.serveAll_refines` — **whatever was asked of a store that was empty in the beginning, it
  shows what the history says, and answers the next request by it**. -/

set_option autoImplicit false
set_option relaxedAutoImplicit false

namespace Breadboard

namespace Store

/-- What is asked of a store. -/
inductive Request where
  /-- A blueprint is saved under a name; if a folder is made for it, that gets the fresh name. -/
  | save (fresh name : String) (blueprint : Blueprint) (overwrite : Bool)
  /-- The blueprint of a name is given a description text. -/
  | describe (name text : String)
  | load (name : String)
  | find (name : String)
  | names

/-- What a store answers. -/
inductive Answer where
  /-- Whether the blueprint was saved. -/
  | saved (done : Bool)
  | described
  | loaded (blueprint : Blueprint)
  /-- The folder of a name, if there is one. -/
  | found (folder : Option Location)
  | named (names : List String)
  | refused (fault : Fault)

/-- What an action ends with: its answer or the cause of its failure, and the files it leaves. -/
def Answer.ofAction {α : Type} (answer : α → Answer) (act : DiskM α) (d : Disk) : Answer × Disk :=
  match act d with
  | .ok a d' => (answer a, d')
  | .error fault d' => (.refused fault, d')

/-- A request with its answer, and the files it leaves. -/
def serve (s : Store) : Request → Disk → Answer × Disk
  | .save fresh name blueprint overwrite =>
      Answer.ofAction .saved (s.saveIn fresh name blueprint.document overwrite)
  | .describe name text => Answer.ofAction (fun _ => .described) (s.describe name text)
  | .load name => Answer.ofAction .loaded do Disk.answer (s.load (← get).tree name)
  | .find name => Answer.ofAction (fun found => .found (found.map Prod.fst)) do
      Disk.answer (s.find? (← get).tree name)
  | .names => Answer.ofAction .named do Disk.answer (s.names (← get).tree)

/-- Requests with their answers, the newest first. -/
abbrev History := List (Request × Answer)

/-- Requests in a row. -/
def serveAll (s : Store) (requests : List Request) (d : Disk) : History × Disk :=
  requests.foldl (fun state r => ((r, (s.serve r state.2).1) :: state.1, (s.serve r state.2).2)) ([], d)

namespace Request

/-- The name that a request is about. -/
def name? : Request → Option String
  | .save _ name _ _ | .describe name _ | .load name | .find name => some name
  | .names => none

/-- The fresh name of a request. -/
def fresh? : Request → Option String
  | .save fresh _ _ _ => some fresh
  | _ => none

/-- A request whose texts can be written, and whose blueprint is read as it was written. -/
def Fits : Request → Prop
  | .save fresh name blueprint _ => blueprint.IsRecorded ∧ blueprint.document.RoundTrips
      ∧ Unpaired.occursIn name = false ∧ Tree.IsName fresh ∧ Unpaired.occursIn fresh = false
  | .describe _ text => Unpaired.occursIn text = false
  | .load _ | .find _ | .names => True

end Request

namespace History

/-- The blueprint with which a name was saved last. -/
def blueprint? (name : String) : History → Option Blueprint
  | [] => none
  | (.save _ saved blueprint _, .saved true) :: older =>
      if saved = name then some blueprint else blueprint? name older
  | _ :: older => blueprint? name older

/-- The description text that a name was given last. -/
def text (name : String) : History → String
  | [] => Description.noText
  | (.describe described text', .described) :: older =>
      if described = name then text' else text name older
  | _ :: older => text name older

/-- The fresh name with which a name was saved first. -/
def folder? (name : String) : History → Option String
  | [] => none
  | (.save fresh saved _ _, .saved true) :: older =>
      (folder? name older).or (if saved = name then some fresh else none)
  | _ :: older => folder? name older

/-- The files of a history: for each name its folder with the two documents. -/
inductive Files (log : History) : List String → Entry → Prop where
  | store : Files log [] .folder
  | folder {name folder : String} (h : folder? name log = some folder) : Files log [folder] .folder
  | blueprint {name folder : String} {blueprint : Blueprint} (h : folder? name log = some folder)
      (hblueprint : blueprint? name log = some blueprint) :
      Files log [folder, blueprintFile] (.file (blueprint.document.write .unicode))
  | description {name folder : String} (h : folder? name log = some folder) :
      Files log [folder, descriptionFile]
        (.file ((Description.of (text name log) folder name).document.write .unicode))

end History

/-- A store shows what a history says: names are found and loaded by it, each name is listed once,
and the files below the folder of the store are those of the history, while everything else is as in
the tree `before`. -/
structure Reflects (s : Store) (before : Tree) (way : List String) (log : History) (t : Tree) :
    Prop where
  load : ∀ name, s.load t name = match log.blueprint? name with
    | some blueprint => .ok blueprint
    | none => .error (.noBlueprint name)
  find : ∀ name, s.find? t name = .ok ((log.folder? name).map fun folder =>
    (s.folder.child folder, .of (log.text name) folder name))
  known : ∀ name, (log.folder? name).isSome = (log.blueprint? name).isSome
  names : ∃ names, s.names t = .ok names ∧ names.Nodup
    ∧ ∀ name, name ∈ names ↔ (log.blueprint? name).isSome = true
  files : ∀ below entry, t.find? (way ++ below) = some entry ↔ log.Files below entry
  outside : ∀ other, ¬ way <+: other → t.find? other = before.find? other

/-- A request is answered as a history says. -/
def Request.Answered (s : Store) (log : History) : Request → Answer → Prop
  | .save _ name _ overwrite, answer =>
      answer = .saved (overwrite || (log.blueprint? name).isNone)
  | .describe name _, answer =>
      answer = if (log.blueprint? name).isSome then .described else .refused (.noBlueprint name)
  | .load name, answer => answer = match log.blueprint? name with
      | some blueprint => .loaded blueprint
      | none => .refused (.noBlueprint name)
  | .find name, answer => answer = .found ((log.folder? name).map s.folder.child)
  | .names, answer => ∃ names, answer = .named names ∧ names.Nodup
      ∧ ∀ name, name ∈ names ↔ (log.blueprint? name).isSome = true

/-- A request that changes nothing: a question, a blueprint that is not to be replaced, or a
description of a name that has none. -/
def Request.IsIdle (log : History) : Request → Prop
  | .save _ name _ overwrite => overwrite = false ∧ (log.blueprint? name).isSome = true
  | .describe name _ => log.blueprint? name = none
  | .load _ | .find _ | .names => True

/-- A request leaves what is not asked about: nothing changes if it is idle, the files of every
other name are as they were, and no name is given another folder. -/
structure Request.Spares (s : Store) (way : List String) (log : History) (r : Request) (d d' : Disk) :
    Prop where
  idle : r.IsIdle log → d' = d
  others : ∀ name folder, r.name? ≠ some name → log.folder? name = some folder → ∀ below,
    d'.tree.find? (way ++ folder :: below) = d.tree.find? (way ++ folder :: below)
  folders : ∀ name folder description, s.find? d.tree name = .ok (some (folder, description)) →
    ∃ description', s.find? d'.tree name = .ok (some (folder, description'))

/-! ### What a history says -/

/-- A history says what is kept. -/
structure History.Tells (log : History) (shelf : Shelf) : Prop where
  folder : ∀ name folder, log.folder? name = some folder
    ↔ ∃ item, shelf folder = some item ∧ item.name = name
  blueprint : ∀ folder item, shelf folder = some item → log.blueprint? item.name = some item.blueprint
  text : ∀ folder item, shelf folder = some item → log.text item.name = item.text
  unknown : ∀ name, log.folder? name = none →
    log.blueprint? name = none ∧ log.text name = Description.noText

namespace History.Tells

variable {log : History} {shelf : Shelf} {folder name : String} {item : Item}

/-- A name has a blueprint if it has a folder. -/
theorem isSome_blueprint? (h : log.Tells shelf) (name : String) :
    (log.folder? name).isSome = (log.blueprint? name).isSome := by
  cases hfolder : log.folder? name with
  | none => rw [(h.unknown name hfolder).1]; rfl
  | some folder =>
      obtain ⟨item, hitem, rfl⟩ := (h.folder name folder).1 hfolder
      rw [h.blueprint folder item hitem]
      rfl

/-- A name without a folder is not kept. -/
theorem not_kept (h : log.Tells shelf) (hname : log.folder? name = none) :
    ∀ folder item, shelf folder = some item → item.name ≠ name := by
  rintro folder item hitem rfl
  rw [(h.folder item.name folder).2 ⟨item, hitem, rfl⟩] at hname
  cases hname

/-- An item that is replaced by one of its name is kept in its folder. -/
theorem exists_put_iff (hitem : shelf folder = some item) {i : Item} (hname : i.name = item.name)
    (name other : String) : (∃ item', shelf.put folder i other = some item' ∧ item'.name = name)
      ↔ ∃ item', shelf other = some item' ∧ item'.name = name := by
  by_cases hother : other = folder
  · subst hother
    rw [Shelf.put_self, hitem]
    simp [hname]
  · rw [Shelf.put_of_ne shelf hother]

/-- Another item has another name. -/
theorem name_ne (h : log.Tells shelf) (hitem : shelf folder = some item) {other : String}
    {item' : Item} (hother : other ≠ folder) (hitem' : shelf other = some item') :
    item.name ≠ item'.name := by
  intro e
  have hfolder := (h.folder item.name folder).2 ⟨item, hitem, rfl⟩
  rw [e, (h.folder item'.name other).2 ⟨item', hitem', rfl⟩] at hfolder
  exact hother (Option.some.inj hfolder)

/-- A blueprint has been replaced. -/
theorem put_blueprint (h : log.Tells shelf) (hitem : shelf folder = some item) (fresh : String)
    (blueprint : Blueprint) :
    History.Tells ((.save fresh item.name blueprint true, .saved true) :: log)
      (shelf.put folder { item with blueprint := blueprint }) where
  folder name other := by
    rw [exists_put_iff (i := { item with blueprint := blueprint }) hitem rfl, ← h.folder, folder?]
    by_cases hname : item.name = name
    · subst hname
      rw [(h.folder item.name folder).2 ⟨item, hitem, rfl⟩, Option.some_or]
    · rw [if_neg hname, Option.or_none]
  blueprint other item' hitem' := by
    rcases Shelf.put_eq_some hitem' with ⟨rfl, rfl⟩ | ⟨hother, hitem'⟩
    · exact if_pos rfl
    · exact (if_neg (h.name_ne hitem hother hitem')).trans (h.blueprint other item' hitem')
  text other item' hitem' := by
    rcases Shelf.put_eq_some hitem' with ⟨rfl, rfl⟩ | ⟨hother, hitem'⟩
    · exact h.text _ item hitem
    · exact h.text other item' hitem'
  unknown name hname := by
    rw [folder?, Option.or_eq_none_iff] at hname
    refine ⟨?_, (h.unknown name hname.1).2⟩
    rw [blueprint?]
    split
    · rename_i e
      rw [if_pos e] at hname
      cases hname.2
    · exact (h.unknown name hname.1).1

/-- A text has been replaced. -/
theorem put_text (h : log.Tells shelf) (hitem : shelf folder = some item) (text : String) :
    History.Tells ((.describe item.name text, .described) :: log)
      (shelf.put folder { item with text := text }) where
  folder name other := by
    rw [exists_put_iff (i := { item with text := text }) hitem rfl, ← h.folder]
    rfl
  blueprint other item' hitem' := by
    rcases Shelf.put_eq_some hitem' with ⟨rfl, rfl⟩ | ⟨hother, hitem'⟩
    · exact h.blueprint _ item hitem
    · exact h.blueprint other item' hitem'
  text other item' hitem' := by
    rcases Shelf.put_eq_some hitem' with ⟨rfl, rfl⟩ | ⟨hother, hitem'⟩
    · exact if_pos rfl
    · exact (if_neg (h.name_ne hitem hother hitem')).trans (h.text other item' hitem')
  unknown name hname := by
    have hne : item.name ≠ name := by
      rintro rfl
      exact h.not_kept hname folder item hitem rfl
    exact ⟨(h.unknown name hname).1, (if_neg hne).trans (h.unknown name hname).2⟩

/-- A name has been saved for the first time. -/
theorem put_new (h : log.Tells shelf) (hname : log.folder? name = none) {fresh : String}
    (hfree : shelf fresh = none) (blueprint : Blueprint) (overwrite : Bool) :
    History.Tells ((.save fresh name blueprint overwrite, .saved true) :: log)
      (shelf.put fresh ⟨name, blueprint, Description.noText⟩) where
  folder other folder' := by
    rw [folder?]
    by_cases hfolder : folder' = fresh
    · subst hfolder
      rw [Shelf.put_self]
      by_cases hother : name = other
      · subst hother
        simp [hname]
      · have hne : log.folder? other ≠ some folder' := by
          intro hold
          obtain ⟨item, hitem, _⟩ := (h.folder other folder').1 hold
          rw [hfree] at hitem
          cases hitem
        simp [hother, hne]
    · rw [Shelf.put_of_ne shelf hfolder, ← h.folder]
      by_cases hother : name = other
      · subst hother
        simp [hname, Ne.symm hfolder]
      · simp [hother]
  blueprint other item' hitem' := by
    rcases Shelf.put_eq_some hitem' with ⟨rfl, rfl⟩ | ⟨_, hitem'⟩
    · exact if_pos rfl
    · exact (if_neg (Ne.symm (h.not_kept hname other item' hitem'))).trans
        (h.blueprint other item' hitem')
  text other item' hitem' := by
    rcases Shelf.put_eq_some hitem' with ⟨rfl, rfl⟩ | ⟨_, hitem'⟩
    · exact (h.unknown name hname).2
    · exact h.text other item' hitem'
  unknown other hother := by
    rw [folder?, Option.or_eq_none_iff] at hother
    refine ⟨?_, (h.unknown other hother.1).2⟩
    rw [blueprint?]
    split
    · rename_i e
      rw [if_pos e] at hother
      cases hother.2
    · exact (h.unknown other hother.1).1

/-- What is added to a history and says nothing about any name is passed over. -/
theorem cons (h : log.Tells shelf) {e : Request × Answer}
    (hfolder : ∀ name, folder? name (e :: log) = log.folder? name)
    (hblueprint : ∀ name, blueprint? name (e :: log) = log.blueprint? name)
    (htext : ∀ name, History.text name (e :: log) = log.text name) : History.Tells (e :: log) shelf where
  folder name folder := by rw [hfolder, h.folder]
  blueprint folder item hitem := by rw [hblueprint, h.blueprint folder item hitem]
  text folder item hitem := by rw [htext, h.text folder item hitem]
  unknown name hname := by
    rw [hblueprint, htext]
    exact h.unknown name ((hfolder name).symm.trans hname)

end History.Tells

/-! ### One request -/

namespace Shelf

/-- The files of a folder are determined by what is kept in it. -/
theorem layout_congr {shelf shelf' : Shelf} {folder : String} (h : shelf' folder = shelf folder)
    (below : List String) : shelf'.layout (folder :: below) = shelf.layout (folder :: below) := by
  match below with
  | [] => rw [layout, layout, h]
  | [_] => rw [layout, layout, h]
  | _ :: _ :: _ => rfl

end Shelf

namespace Answer

variable {α : Type} {f : α → Answer} {act : DiskM α} {d d' : Disk}

theorem ofAction_ok {a : α} (h : act d = .ok a d') : ofAction f act d = (f a, d') := by
  rw [ofAction, h]

theorem ofAction_error {fault : Fault} (h : act d = .error fault d') :
    ofAction f act d = (.refused fault, d') := by
  rw [ofAction, h]

end Answer

/-- What a request does to a store that keeps something: it is answered as the history says, and
what is kept afterwards is what the history says with the answer. -/
structure Request.Turns (s : Store) (before : Tree) (way : List String) (log : History) (shelf : Shelf)
    (r : Request) (answer : Answer) (d d' : Disk) (shelf' : Shelf) : Prop where
  keeps : s.Keeps before way shelf' d'.tree
  tells : History.Tells ((r, answer) :: log) shelf'
  answered : r.Answered s log answer
  idle : r.IsIdle log → d' = d
  /-- What has another name is kept as it was. -/
  others : ∀ folder item, shelf folder = some item → r.name? ≠ some item.name →
    shelf' folder = some item
  /-- A folder that is kept is kept for its name. -/
  folders : ∀ folder item, shelf folder = some item →
    ∃ item', shelf' folder = some item' ∧ item'.name = item.name
  /-- A folder that is kept was kept before or has the fresh name. -/
  used : ∀ folder item, shelf' folder = some item →
    (∃ item', shelf folder = some item') ∨ r.fresh? = some folder

variable {s : Store} {before : Tree} {d d' : Disk} {way : List String} {shelf : Shelf}
  {folder name : String} {item : Item} {log : History} {r : Request} {answer : Answer}

namespace Keeps

/-- A request that changes nothing. -/
theorem turns_idle (h : s.Keeps before way shelf d.tree)
    (htells : History.Tells ((r, answer) :: log) shelf) (hanswered : r.Answered s log answer) :
    r.Turns s before way log shelf answer d d shelf where
  keeps := h
  tells := htells
  answered := hanswered
  idle _ := rfl
  others _ _ hitem _ := hitem
  folders _ item hitem := ⟨item, hitem, rfl⟩
  used _ item hitem := .inl ⟨item, hitem⟩

/-- A request that replaces an item by one of its name. -/
theorem turns_put (hitem : shelf folder = some item) {i : Item} (hname : i.name = item.name)
    (hasked : r.name? = some item.name) (hkeeps : s.Keeps before way (shelf.put folder i) d'.tree)
    (htells : History.Tells ((r, answer) :: log) (shelf.put folder i))
    (hanswered : r.Answered s log answer) (hbusy : ¬ r.IsIdle log) :
    r.Turns s before way log shelf answer d d' (shelf.put folder i) where
  keeps := hkeeps
  tells := htells
  answered := hanswered
  idle hidle := absurd hidle hbusy
  others other item' hitem' hne := by
    have hother : other ≠ folder := by
      rintro rfl
      cases hitem.symm.trans hitem'
      exact hne hasked
    rw [Shelf.put_of_ne shelf hother, hitem']
  folders other item' hitem' := by
    by_cases hother : other = folder
    · subst hother
      cases hitem.symm.trans hitem'
      exact ⟨i, Shelf.put_self _ _ _, hname⟩
    · exact ⟨item', (Shelf.put_of_ne shelf hother i).trans hitem', rfl⟩
  used other item' hitem' := by
    rcases Shelf.put_eq_some hitem' with ⟨rfl, _⟩ | ⟨_, hitem'⟩
    · exact .inl ⟨item, hitem⟩
    · exact .inl ⟨item', hitem'⟩

/-- A request that puts an item into its fresh folder. -/
theorem turns_new (hfree : shelf folder = none) {i : Item} (hasked : r.fresh? = some folder)
    (hkeeps : s.Keeps before way (shelf.put folder i) d'.tree)
    (htells : History.Tells ((r, answer) :: log) (shelf.put folder i))
    (hanswered : r.Answered s log answer) (hbusy : ¬ r.IsIdle log) :
    r.Turns s before way log shelf answer d d' (shelf.put folder i) := by
  have hkept (other : String) (item' : Item) (hitem' : shelf other = some item') :
      shelf.put folder i other = some item' := by
    rw [Shelf.put_of_ne shelf _ i, hitem']
    rintro rfl
    cases hfree.symm.trans hitem'
  exact {
    keeps := hkeeps
    tells := htells
    answered := hanswered
    idle := fun hidle => absurd hidle hbusy
    others := fun other item' hitem' _ => hkept other item' hitem'
    folders := fun other item' hitem' => ⟨item', hkept other item' hitem', rfl⟩
    used := fun other item' hitem' => by
      rcases Shelf.put_eq_some hitem' with ⟨rfl, _⟩ | ⟨_, hitem'⟩
      · exact .inr hasked
      · exact .inl ⟨item', hitem'⟩ }

theorem serve_save (h : s.Keeps before way shelf d.tree) (htells : log.Tells shelf) {fresh : String}
    {blueprint : Blueprint} {overwrite : Bool}
    (hfits : (Request.save fresh name blueprint overwrite).Fits) (hfresh : shelf fresh = none) :
    ∃ answer d' shelf', s.serve (.save fresh name blueprint overwrite) d = (answer, d')
      ∧ (Request.save fresh name blueprint overwrite).Turns s before way log shelf
        answer d d' shelf' := by
  obtain ⟨hrecorded, hroundTrips, hname, hisName, hencodable⟩ := hfits
  have htext : Unpaired.occursIn Description.noText = false := by decide
  cases hfolder : log.folder? name with
  | none =>
      have hunknown := (htells.unknown name hfolder).1
      obtain ⟨t, hsave, hkeeps⟩ := h.save_new (htells.not_kept hfolder) hfresh
        ⟨hrecorded, hroundTrips, htext, hname, hisName, hencodable⟩ overwrite
      refine ⟨_, _, _, Answer.ofAction_ok hsave, turns_new hfresh rfl hkeeps
        (htells.put_new hfolder hfresh blueprint overwrite) ?_ ?_⟩
      · show Answer.saved true = .saved (overwrite || (log.blueprint? name).isNone)
        rw [hunknown, Option.isNone_none, Bool.or_true]
      · rintro ⟨_, hknown⟩
        rw [hunknown] at hknown
        cases hknown
  | some folder =>
      obtain ⟨item, hitem, rfl⟩ := (htells.folder name folder).1 hfolder
      have hknown := htells.blueprint folder item hitem
      cases overwrite with
      | false =>
          refine ⟨_, _, _,
            Answer.ofAction_ok (saveIn_kept (h.find?_eq_some hitem) fresh blueprint.document),
            h.turns_idle (htells.cons (fun _ => rfl) (fun _ => rfl) fun _ => rfl) ?_⟩
          show Answer.saved false = .saved (false || (log.blueprint? item.name).isNone)
          rw [hknown]
          rfl
      | true =>
          obtain ⟨t, hsave, hkeeps⟩ := h.save_over hitem fresh hrecorded hroundTrips
          refine ⟨_, _, _, Answer.ofAction_ok hsave,
            turns_put (i := { item with blueprint := blueprint }) hitem rfl rfl hkeeps
            (htells.put_blueprint hitem fresh blueprint) rfl ?_⟩
          rintro ⟨hkept, _⟩
          cases hkept

theorem serve_describe (h : s.Keeps before way shelf d.tree) (htells : log.Tells shelf) {text : String}
    (htext : Unpaired.occursIn text = false) :
    ∃ answer d' shelf', s.serve (.describe name text) d = (answer, d')
      ∧ (Request.describe name text).Turns s before way log shelf answer d d' shelf' := by
  cases hfolder : log.folder? name with
  | none =>
      have hunknown := (htells.unknown name hfolder).1
      refine ⟨_, _, _,
        Answer.ofAction_error (describe_error (h.find?_eq_none (htells.not_kept hfolder)) text),
        h.turns_idle (htells.cons (fun _ => rfl) (fun _ => rfl) fun _ => rfl) ?_⟩
      show _ = if (log.blueprint? name).isSome then _ else _
      rw [hunknown]
      rfl
  | some folder =>
      obtain ⟨item, hitem, rfl⟩ := (htells.folder name folder).1 hfolder
      have hknown := htells.blueprint folder item hitem
      obtain ⟨t, hdescribe, hkeeps⟩ := h.describe_ok hitem htext
      refine ⟨_, _, _, Answer.ofAction_ok hdescribe,
        turns_put (i := { item with text := text }) hitem rfl rfl hkeeps
          (htells.put_text hitem text) ?_ ?_⟩
      · show _ = if (log.blueprint? item.name).isSome then _ else _
        rw [hknown]
        rfl
      · intro hidle
        cases hknown.symm.trans hidle

theorem serve_load (h : s.Keeps before way shelf d.tree) (htells : log.Tells shelf) :
    ∃ answer, s.serve (.load name) d = (answer, d)
      ∧ (Request.load name).Turns s before way log shelf answer d d shelf := by
  have hcons (answer : Answer) : History.Tells ((.load name, answer) :: log) shelf :=
    htells.cons (fun _ => rfl) (fun _ => rfl) fun _ => rfl
  cases hfolder : log.folder? name with
  | none =>
      have hload : (do Disk.answer (s.load (← get).tree name) : DiskM Blueprint) d
          = .error (.noBlueprint name) d := by
        rw [Loop.get_bind, load_error (h.find?_eq_none (htells.not_kept hfolder))]
        rfl
      refine ⟨_, Answer.ofAction_error hload, h.turns_idle (hcons _) ?_⟩
      show _ = match log.blueprint? name with
        | some blueprint => Answer.loaded blueprint
        | none => .refused (.noBlueprint name)
      rw [(htells.unknown name hfolder).1]
  | some folder =>
      obtain ⟨item, hitem, rfl⟩ := (htells.folder name folder).1 hfolder
      have hload : (do Disk.answer (s.load (← get).tree item.name) : DiskM Blueprint) d
          = .ok item.blueprint d := by
        rw [Loop.get_bind, h.load_eq hitem]
        rfl
      refine ⟨_, Answer.ofAction_ok hload, h.turns_idle (hcons _) ?_⟩
      show _ = match log.blueprint? item.name with
        | some blueprint => Answer.loaded blueprint
        | none => .refused (.noBlueprint item.name)
      rw [htells.blueprint folder item hitem]

/-- A name is found in the folder that the history says. -/
theorem find?_eq (h : s.Keeps before way shelf d.tree) (htells : log.Tells shelf) (name : String) :
    s.find? d.tree name = .ok ((log.folder? name).map fun folder =>
      (s.folder.child folder, .of (log.text name) folder name)) := by
  cases hfolder : log.folder? name with
  | none => exact h.find?_eq_none (htells.not_kept hfolder)
  | some folder =>
      obtain ⟨item, hitem, rfl⟩ := (htells.folder name folder).1 hfolder
      rw [h.find?_eq_some hitem, htells.text folder item hitem]
      rfl

/-- The names are those that the history knows. -/
theorem exists_names (h : s.Keeps before way shelf d.tree) (htells : log.Tells shelf) :
    ∃ names, s.names d.tree = .ok names ∧ names.Nodup
      ∧ ∀ name, name ∈ names ↔ (log.blueprint? name).isSome = true := by
  obtain ⟨names, hnames, hnodup, hmem⟩ := h.names_eq
  refine ⟨names, hnames, hnodup, fun name => ?_⟩
  rw [hmem, ← htells.isSome_blueprint?, Option.isSome_iff_exists]
  exact exists_congr fun folder => (htells.folder name folder).symm

theorem serve_find (h : s.Keeps before way shelf d.tree) (htells : log.Tells shelf) :
    ∃ answer, s.serve (.find name) d = (answer, d)
      ∧ (Request.find name).Turns s before way log shelf answer d d shelf := by
  refine ⟨_, Answer.ofAction_ok (a := (log.folder? name).map fun folder =>
      (s.folder.child folder, .of (log.text name) folder name)) ?_,
    h.turns_idle (htells.cons (fun _ => rfl) (fun _ => rfl) fun _ => rfl) ?_⟩
  · rw [Loop.get_bind, h.find?_eq htells]
    rfl
  · show Answer.found _ = _
    rw [Option.map_map]
    rfl

theorem serve_names (h : s.Keeps before way shelf d.tree) (htells : log.Tells shelf) :
    ∃ answer, s.serve .names d = (answer, d)
      ∧ Request.names.Turns s before way log shelf answer d d shelf := by
  obtain ⟨names, hnames, hspec⟩ := h.exists_names htells
  refine ⟨_, Answer.ofAction_ok (a := names) ?_,
    h.turns_idle (htells.cons (fun _ => rfl) (fun _ => rfl) fun _ => rfl) ⟨names, rfl, hspec⟩⟩
  rw [Loop.get_bind, hnames]
  rfl

/-- **A request is answered as the history says, and changes what is kept as its answer says.** -/
theorem serve (h : s.Keeps before way shelf d.tree) (htells : log.Tells shelf) (hfits : r.Fits)
    (hfresh : ∀ fresh, r.fresh? = some fresh → shelf fresh = none) :
    ∃ answer d' shelf', s.serve r d = (answer, d')
      ∧ r.Turns s before way log shelf answer d d' shelf' := by
  cases r with
  | save fresh name blueprint overwrite => exact h.serve_save htells hfits (hfresh fresh rfl)
  | describe name text => exact h.serve_describe htells hfits
  | load name =>
      obtain ⟨answer, hserve, hturns⟩ := h.serve_load htells
      exact ⟨answer, d, shelf, hserve, hturns⟩
  | find name =>
      obtain ⟨answer, hserve, hturns⟩ := h.serve_find htells
      exact ⟨answer, d, shelf, hserve, hturns⟩
  | names =>
      obtain ⟨answer, hserve, hturns⟩ := h.serve_names htells
      exact ⟨answer, d, shelf, hserve, hturns⟩

/-- The files of a store are those of its history. -/
theorem find?_eq_some_iff (h : s.Keeps before way shelf d.tree) (htells : log.Tells shelf)
    (below : List String) (entry : Entry) :
    d.tree.find? (way ++ below) = some entry ↔ log.Files below entry := by
  rw [h.inside]
  constructor
  · intro hentry
    match below with
    | [] =>
        cases hentry
        exact .store
    | [folder] =>
        obtain ⟨item, hitem, rfl⟩ := Option.map_eq_some_iff.1 hentry
        exact .folder ((htells.folder item.name folder).2 ⟨item, hitem, rfl⟩)
    | [folder, file] =>
        obtain ⟨item, hitem, hfile⟩ := Option.bind_eq_some_iff.1 hentry
        have hfolder := (htells.folder item.name folder).2 ⟨item, hitem, rfl⟩
        rw [Item.file?] at hfile
        split at hfile
        · rename_i e
          cases hfile
          rw [e]
          exact .blueprint hfolder (htells.blueprint folder item hitem)
        · split at hfile
          · rename_i e
            cases hfile
            rw [e, Item.description, ← htells.text folder item hitem]
            exact .description hfolder
          · cases hfile
    | _ :: _ :: _ :: _ => cases hentry
  · intro hfiles
    cases hfiles with
    | store => rfl
    | folder hfolder =>
        obtain ⟨item, hitem, _⟩ := (htells.folder _ _).1 hfolder
        rw [Shelf.layout, hitem]
        rfl
    | blueprint hfolder hblueprint =>
        obtain ⟨item, hitem, rfl⟩ := (htells.folder _ _).1 hfolder
        cases (htells.blueprint _ item hitem).symm.trans hblueprint
        rw [Shelf.layout, hitem, Option.bind_some, Item.file?_blueprintFile]
    | description hfolder =>
        obtain ⟨item, hitem, rfl⟩ := (htells.folder _ _).1 hfolder
        rw [Shelf.layout, hitem, Option.bind_some, Item.file?_descriptionFile, Item.description,
          htells.text _ item hitem]

/-- **A store that keeps what a history says shows what it says.** -/
theorem reflects (h : s.Keeps before way shelf d.tree) (htells : log.Tells shelf) :
    s.Reflects before way log d.tree where
  load name := by
    cases hfolder : log.folder? name with
    | none =>
        rw [load_error (h.find?_eq_none (htells.not_kept hfolder)), (htells.unknown name hfolder).1]
    | some folder =>
        obtain ⟨item, hitem, rfl⟩ := (htells.folder name folder).1 hfolder
        rw [h.load_eq hitem, htells.blueprint folder item hitem]
  find := h.find?_eq htells
  known := htells.isSome_blueprint?
  names := h.exists_names htells
  files := h.find?_eq_some_iff htells
  outside := h.outside

/-- A request spares what it is not about. -/
theorem spares (h : s.Keeps before way shelf d.tree) (htells : log.Tells shelf) {shelf' : Shelf}
    (hturns : r.Turns s before way log shelf answer d d' shelf') : r.Spares s way log d d' where
  idle := hturns.idle
  others name folder hname hfolder below := by
    obtain ⟨item, hitem, rfl⟩ := (htells.folder name folder).1 hfolder
    have hsame := (hturns.others folder item hitem hname).trans hitem.symm
    rw [hturns.keeps.inside, h.inside, Shelf.layout_congr hsame]
  folders name folder description hfind := by
    rw [h.find?_eq htells] at hfind
    obtain ⟨folder', hfolder', e⟩ := Option.map_eq_some_iff.1 (Except.ok.inj hfind)
    cases e
    obtain ⟨item, hitem, rfl⟩ := (htells.folder name folder').1 hfolder'
    obtain ⟨item', hitem', hname⟩ := hturns.folders folder' item hitem
    rw [← hname]
    exact ⟨_, hturns.keeps.find?_eq_some hitem'⟩

end Keeps

/-! ### Requests in a row -/

theorem serveAll_concat (s : Store) (requests : List Request) (r : Request) (d : Disk) :
    s.serveAll (requests ++ [r]) d
      = ((r, (s.serve r (s.serveAll requests d).2).1) :: (s.serveAll requests d).1,
        (s.serve r (s.serveAll requests d).2).2) := by
  rw [serveAll, List.foldl_append]
  rfl

/-- The folder of a store is there, and nothing is in it. -/
structure IsEmpty (s : Store) (t : Tree) (way : List String) : Prop where
  walk : t.walk s.folder = .ok way
  folder : t.find? way = some .folder
  room : s.folder.HasRoom
  empty : ∀ name below, t.find? (way ++ name :: below) = none

/-- A store in which nothing is keeps nothing. -/
theorem IsEmpty.keeps {t : Tree} (h : s.IsEmpty t way) : s.Keeps t way (fun _ => none) t where
  walk := h.walk
  room := h.room
  inside below := by
    match below with
    | [] => rw [List.append_nil, h.folder]; rfl
    | [folder] => exact h.empty folder []
    | [folder, file] => exact h.empty folder [file]
    | folder :: _ :: _ :: _ => exact h.empty folder _
  outside _ _ := rfl
  fits _ _ hitem := by cases hitem
  unique _ _ _ _ hitem := by cases hitem

/-- The fresh name of a request is that of no folder if no request before has had it. -/
theorem free_of_nodup {requests : List Request}
    (hnodup : ((requests ++ [r]).filterMap Request.fresh?).Nodup)
    (hused : ∀ folder item, shelf folder = some item → folder ∈ requests.filterMap Request.fresh?) :
    ∀ fresh, r.fresh? = some fresh → shelf fresh = none := by
  intro fresh hr
  rw [List.filterMap_append, List.filterMap_cons_some hr, List.nodup_append] at hnodup
  by_contra hne
  obtain ⟨item, hitem⟩ := Option.ne_none_iff_exists'.1 hne
  exact hnodup.2.2 fresh (hused fresh item hitem) fresh List.mem_cons_self rfl

/-- **What is kept after any number of requests**: it is what their history says, in folders that
have fresh names of theirs. -/
theorem exists_keeps (hempty : s.IsEmpty d.tree way) {requests : List Request}
    (hfits : ∀ r ∈ requests, r.Fits) (hnodup : (requests.filterMap Request.fresh?).Nodup) :
    ∃ shelf : Shelf, s.Keeps d.tree way shelf (s.serveAll requests d).2.tree
      ∧ (s.serveAll requests d).1.Tells shelf
      ∧ ∀ folder item, shelf folder = some item → folder ∈ requests.filterMap Request.fresh? := by
  induction requests using List.reverseRecOn with
  | nil =>
      refine ⟨fun _ => none, hempty.keeps, ⟨?_, nofun, nofun, fun _ _ => ⟨rfl, rfl⟩⟩, nofun⟩
      exact fun _ _ => ⟨nofun, nofun⟩
  | append_singleton requests r ih =>
      have hnodup' := hnodup
      rw [List.filterMap_append] at hnodup'
      obtain ⟨shelf, hkeeps, htells, hused⟩ := ih (fun r hr => hfits r (List.mem_append_left _ hr))
        (List.nodup_append.1 hnodup').1
      obtain ⟨answer, d', shelf', hserve, hturns⟩ := hkeeps.serve htells
        (hfits r (List.mem_append_right _ List.mem_cons_self)) (free_of_nodup hnodup hused)
      rw [serveAll_concat, hserve]
      refine ⟨shelf', hturns.keeps, hturns.tells, fun folder item hitem => ?_⟩
      rw [List.filterMap_append, List.mem_append]
      rcases hturns.used folder item hitem with ⟨item', hitem'⟩ | hr
      · exact .inl (hused folder item' hitem')
      · rw [List.filterMap_cons_some hr]
        exact .inr List.mem_cons_self

/-- **A store refines the map that its history tells.**  Whatever was asked of a store in which
nothing was, it shows what the history says; the next request is answered as the history says,
spares what it is not about, and leaves a store that shows what the longer history says. -/
theorem serveAll_refines (hempty : s.IsEmpty d.tree way) {requests : List Request} {next : Request}
    (hfits : ∀ r ∈ requests ++ [next], r.Fits)
    (hfresh : ((requests ++ [next]).filterMap Request.fresh?).Nodup) :
    ∃ log d₁ answer d₂, s.serveAll requests d = (log, d₁) ∧ s.serve next d₁ = (answer, d₂)
      ∧ s.Reflects d.tree way log d₁.tree ∧ next.Answered s log answer
      ∧ s.Reflects d.tree way ((next, answer) :: log) d₂.tree ∧ next.Spares s way log d₁ d₂ := by
  have hnodup := hfresh
  rw [List.filterMap_append] at hnodup
  obtain ⟨shelf, hkeeps, htells, hused⟩ := exists_keeps hempty
    (fun r hr => hfits r (List.mem_append_left _ hr)) (List.nodup_append.1 hnodup).1
  obtain ⟨answer, d', shelf', hserve, hturns⟩ := hkeeps.serve htells
    (hfits next (List.mem_append_right _ List.mem_cons_self)) (free_of_nodup hfresh hused)
  exact ⟨_, _, answer, d', rfl, hserve, hkeeps.reflects htells, hturns.answered,
    hturns.keeps.reflects hturns.tells, hkeeps.spares htells hturns⟩

/-- A lamp and a door are saved in folders that are not in the order in which they were made; the
lamp gets a text and is replaced. -/
theorem serveAll_refines_lamp :
    let s : Store := ⟨⟨"", ["bp"]⟩⟩
    let d : Disk := ⟨[(["bp"], .folder)], 0⟩
    let lamp := Blueprint.ofRecords [.obj [("shapeId", .str "lamp")]]
    let requests : List Request := [.save "f2" "lamp" (.ofRecords []) true, .describe "lamp" "bright",
      .save "a7" "door" (.ofRecords []) false, .save "c1" "lamp" lamp true]
    ∃ log d₁ answer d₂, s.serveAll requests d = (log, d₁) ∧ s.serve (.load "lamp") d₁ = (answer, d₂)
      ∧ s.Reflects d.tree ["bp"] log d₁.tree ∧ (Request.load "lamp").Answered s log answer
      ∧ s.Reflects d.tree ["bp"] ((.load "lamp", answer) :: log) d₂.tree
      ∧ (Request.load "lamp").Spares s ["bp"] log d₁ d₂ := by
  intro s d lamp requests
  have hempty : s.IsEmpty d.tree ["bp"] :=
    ⟨rfl, rfl, by rw [Location.HasRoom]; decide, fun name below => by simp [d, Tree.find?]⟩
  have hnothing : (Blueprint.ofRecords []).IsRecorded
      ∧ (Blueprint.ofRecords []).document.RoundTrips := by
    refine ⟨by simp [Blueprint.IsRecorded, Blueprint.ofRecords],
      Json.roundTrips_of_plain ?_ (by decide +kernel)⟩
    exact ⟨by decide, by decide, ⟨by decide, ⟨by decide, by decide, ⟨by decide, trivial⟩, trivial⟩,
      trivial⟩, trivial, trivial⟩
  have hlamp : lamp.IsRecorded ∧ lamp.document.RoundTrips := by
    refine ⟨by simp [lamp, Blueprint.IsRecorded, Blueprint.ofRecords],
      Json.roundTrips_of_plain ?_ (by decide +kernel)⟩
    exact ⟨by decide, by decide, ⟨by decide, ⟨by decide, by decide, ⟨by decide,
      ⟨by decide, by decide, trivial, trivial⟩, trivial⟩, trivial⟩, trivial⟩, trivial, trivial⟩
  have hisName (fresh : String) (h : fresh = "f2" ∨ fresh = "a7" ∨ fresh = "c1") :
      Tree.IsName fresh ∧ Unpaired.occursIn fresh = false := by
    rcases h with rfl | rfl | rfl <;> exact ⟨⟨by decide, by decide, by decide⟩, by decide⟩
  refine serveAll_refines hempty ?_ (by decide)
  simp only [requests, List.cons_append, List.nil_append, List.forall_mem_cons]
  exact ⟨⟨hnothing.1, hnothing.2, by decide, hisName _ (.inl rfl)⟩,
    show Unpaired.occursIn "bright" = false by decide,
    ⟨hnothing.1, hnothing.2, by decide, hisName _ (.inr (.inl rfl))⟩,
    ⟨hlamp.1, hlamp.2, by decide, hisName _ (.inr (.inr rfl))⟩, trivial,
    fun _ h => absurd h List.not_mem_nil⟩

end Store

end Breadboard
