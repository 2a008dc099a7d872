import Breadboard.Proofs.Blueprint.Lookup

/-!
**Writing documents.**

A document is first written to a temporary file, which then takes the place of the file that was
there.  Seen from outside, one file of the tree is replaced, or none is if the document cannot be
written, and in neither case does the temporary file stay.

Main results:

* `Disk.writeThrough_ok`, `Disk.writeThrough_error` — **whatever free location the temporary file
  has, it leaves no trace**;
* `Store.Stands.writeDocument_ok`, `Store.Stands.writeDocument_error` — a document in a folder of a
  store;
* `Store.Stands.describe_ok`, `Store.Stands.saveIn_over`, `Store.Stands.saveIn_new` — what the
  requests that write make of the files. -/

set_option autoImplicit false
set_option relaxedAutoImplicit false

namespace Breadboard

namespace Tree

variable {t : Tree} {l : Location} {way : List String}

theorem makeFile_ok (hwalk : t.walk l = .ok way) (hfree : t.find? way = none) :
    t.makeFile l = .ok (t.insert way (.file "")) := by
  unfold makeFile
  rw [hwalk]
  simp only [bind, Except.bind, hfree]
  rfl

theorem writeText_ok (hwalk : t.walk l = .ok way) (hfile : t.find? way ≠ some .folder)
    (text : String) : t.writeText l text = .ok (t.insert way (.file text)) := by
  unfold writeText writeEntry
  rw [hwalk]
  simp only [bind, Except.bind, if_neg hfile]
  rfl

theorem rename_ok {target : Location} {targetWay : List String} {entry : Entry}
    (hwalk : t.walk l = .ok way) (hentry : t.find? way = some entry)
    (htarget : t.walk target = .ok targetWay) (hfile : t.find? targetWay ≠ some .folder) :
    t.rename l target = .ok ((t.remove way).insert targetWay entry) := by
  unfold rename
  rw [hwalk, htarget]
  simp only [bind, Except.bind, hentry, if_neg hfile]
  rfl

theorem makeFolder_ok (hwalk : t.walk l = .ok way) (hfree : t.find? way = none) :
    t.makeFolder l = .ok (t.insert way .folder) := by
  unfold makeFolder
  rw [hwalk]
  simp only [bind, Except.bind, hfree]
  rfl

/-- Nothing that is there is the working folder. -/
theorem ne_nil_of_find?_ne (h : t.find? way ≠ some .folder) : way ≠ [] := by
  rintro rfl
  exact h rfl

end Tree

/-! ### Actions that are caught -/

namespace Loop

variable {α σ : Type}

/-- An action that succeeds is not caught. -/
theorem tryCatch_of_ok {x : EStateM Fault σ α} {handle : Fault → EStateM Fault σ α} {a : α} {s s' : σ}
    (h : x s = .ok a s') : (tryCatch x handle) s = .ok a s' := by
  show EStateM.tryCatch x handle s = _
  rw [EStateM.tryCatch, h]

/-- An action that fails is caught where it has got to. -/
theorem tryCatch_of_error {x : EStateM Fault σ α} {handle : Fault → EStateM Fault σ α} {fault : Fault}
    {s s' : σ} (h : x s = .error fault s') : (tryCatch x handle) s = handle fault s' := by
  show EStateM.tryCatch x handle s = _
  rw [EStateM.tryCatch, h]
  rfl

end Loop

namespace Disk

variable {d : Disk}

theorem change_ok {f : Tree → Except Fault Tree} {t : Tree} (h : f d.tree = .ok t) :
    change f d = .ok () { d with tree := t } := by
  rw [change, onTree, Stepwise.zoom, Tree.change, h]

/-- **Whatever free location the temporary file has, one file is replaced and nothing else is
touched.** -/
theorem writeThrough_ok {temporary l : Location} {temporaryWay way : List String} {document : Json}
    {text : String} (htemporary : d.tree.walk temporary = .ok temporaryWay)
    (hfree : d.tree.find? temporaryWay = none) (hwalk : d.tree.walk l = .ok way)
    (hfile : d.tree.find? way ≠ some .folder) (hne : way ≠ temporaryWay)
    (htext : documentText document = .ok text) :
    writeThrough temporary l document d = .ok () { d with tree := d.tree.insert way (.file text) } := by
  have hnofolder : d.tree.find? temporaryWay ≠ some .folder := by rw [hfree]; exact nofun
  have hnil := Tree.ne_nil_of_find?_ne hnofolder
  have hkeep (entry : Entry) : Tree.KeepsFolders d.tree (d.tree.insert temporaryWay entry) :=
    Tree.keepsFolders_insert hnil fun h => absurd h hnofolder
  -- the temporary file is made, filled and given the location of the document
  have hmake := Tree.makeFile_ok htemporary hfree
  have hfill : (d.tree.insert temporaryWay (.file "")).writeText temporary text
      = .ok (d.tree.insert temporaryWay (.file text)) := by
    rw [Tree.writeText_ok (Tree.walk_mono (hkeep _) htemporary), Tree.insert_insert]
    rw [Tree.find?_insert_self hnil]
    exact nofun
  have hrename : (d.tree.insert temporaryWay (.file text)).rename temporary l
      = .ok (d.tree.insert way (.file text)) := by
    rw [Tree.rename_ok (Tree.walk_mono (hkeep _) htemporary) (Tree.find?_insert_self hnil _ _)
      (Tree.walk_mono (hkeep _) hwalk), Tree.remove_insert hnil hfree]
    rwa [Tree.find?_insert_of_ne hnil hne]
  unfold writeThrough
  rw [Loop.bind_of_ok (change_ok hmake)]
  refine Loop.tryCatch_of_ok ?_
  have hfilled : change (fun t => t.writeText temporary text)
      { d with tree := d.tree.insert temporaryWay (.file "") }
      = .ok () { d with tree := d.tree.insert temporaryWay (.file text) } := change_ok hfill
  have hrenamed : change (fun t => t.rename temporary l)
      { d with tree := d.tree.insert temporaryWay (.file text) }
      = .ok () { d with tree := d.tree.insert way (.file text) } := change_ok hrename
  rw [htext]
  exact (Loop.bind_of_ok hfilled).trans hrenamed

/-- **A document that cannot be written leaves everything as it is.** -/
theorem writeThrough_error {temporary l : Location} {temporaryWay : List String} {document : Json}
    {fault : Fault} (htemporary : d.tree.walk temporary = .ok temporaryWay)
    (hfree : d.tree.find? temporaryWay = none) (htext : documentText document = .error fault) :
    writeThrough temporary l document d = .error fault d := by
  have hnofolder : d.tree.find? temporaryWay ≠ some .folder := by rw [hfree]; exact nofun
  have hnil := Tree.ne_nil_of_find?_ne hnofolder
  have hdiscard : (d.tree.insert temporaryWay (.file "")).discard temporary = d.tree := by
    have hkeep : Tree.KeepsFolders d.tree (d.tree.insert temporaryWay (.file "")) :=
      Tree.keepsFolders_insert hnil fun h => absurd h hnofolder
    rw [Tree.discard, Tree.walk_mono hkeep htemporary]
    exact Tree.remove_insert hnil hfree _
  unfold writeThrough
  rw [Loop.bind_of_ok (change_ok (Tree.makeFile_ok htemporary hfree))]
  have hdiscarded : change (fun t => .ok (t.discard temporary))
      { d with tree := d.tree.insert temporaryWay (.file "") } = .ok () d := by
    have h := change_ok (d := { d with tree := d.tree.insert temporaryWay (.file "") })
      (f := fun t => .ok (t.discard temporary)) rfl
    rwa [hdiscard] at h
  rw [htext]
  exact (Loop.tryCatch_of_error rfl).trans ((Loop.bind_of_ok hdiscarded).trans rfl)

/-- The name of the temporary file beside a file. -/
def temporaryName (file : String) : String :=
  "." ++ file ++ "." ++ String.ofList (Quoted.hex 8 0) ++ ".tmp"

theorem temporary_zero (folder : Location) (file : String) :
    temporary (folder.child file) 0 = folder.child (temporaryName file) := by
  rw [temporary, Location.parent_child, Location.name_child, temporaryName]

/-- The first location for the temporary file is taken if it is free. -/
theorem freeTemporary_eq {t : Tree} {folder : Location} {file : String} {way : List String}
    (hwalk : t.walk (folder.child (temporaryName file)) = .ok way) (hfree : t.find? way = none) :
    freeTemporary t (folder.child file) = folder.child (temporaryName file) := by
  have hisFree : t.isFree (temporary (folder.child file) 0) = true := by
    rw [temporary_zero, Tree.isFree, hwalk]
    simp only [hfree, Option.isNone_none]
  rw [freeTemporary, List.range_succ_eq_map, List.map_cons, List.find?_cons_of_pos hisFree,
    Option.getD_some, temporary_zero]

/-- A new folder. -/
theorem makeFolders_ok {folder : Location} {name : String} {way : List String}
    (hwalk : d.tree.walk (folder.child name) = .ok way) (hfree : d.tree.find? way = none) :
    onTree (Tree.makeFolders (folder.child name)) d
      = .ok () { d with tree := d.tree.insert way .folder } := by
  refine Stepwise.zoom_eq_ok ?_
  have hparts : (folder.child name).parts.reverse = name :: folder.parts.reverse := by
    rw [Location.child, List.reverse_append]
    rfl
  have hlocation : (⟨(folder.child name).root, (name :: folder.parts.reverse).reverse⟩ : Location)
      = folder.child name := by
    rw [List.reverse_cons, List.reverse_reverse]
    rfl
  rw [Tree.makeFolders, hparts, Tree.ensureBackwards]
  rw [Loop.get_bind, hlocation, Tree.makeFolder_ok hwalk hfree]
  rfl

end Disk

namespace Store

variable {s : Store} {d : Disk} {way : List String} {name file text : String}

/-- The two files in the folder of a blueprint. -/
def IsFile (file : String) : Prop := file = blueprintFile ∨ file = descriptionFile

theorem IsFile.isName (h : IsFile file) : Tree.IsName file := by
  rcases h with rfl | rfl
  · exact isName_blueprintFile
  · exact isName_descriptionFile

theorem IsFile.isName_temporaryName (h : IsFile file) : Tree.IsName (Disk.temporaryName file) := by
  rcases h with rfl | rfl <;> exact ⟨by decide, by decide, by decide⟩

theorem IsFile.ne_temporaryName (h : IsFile file) : file ≠ Disk.temporaryName file := by
  rcases h with rfl | rfl <;> decide

/-- A document is written into the folder of a blueprint, and only its file is replaced. -/
theorem Stands.writeDocument_ok (h : s.Stands d.tree way) (hfile : IsFile file)
    (hfolder : d.tree.find? (way ++ [name]) = some .folder)
    (hfree : d.tree.find? (way ++ [name, Disk.temporaryName file]) = none)
    (hplace : d.tree.find? (way ++ [name, file]) ≠ some .folder) {document : Json}
    (htext : Disk.documentText document = .ok text) :
    Disk.writeDocument ((s.folder.child name).child file) document d
      = .ok () { d with tree := d.tree.insert (way ++ [name, file]) (.file text) } := by
  have hname := h.isName hfolder
  have htemporary := h.walk_file hname hfolder hfile.isName_temporaryName
  have hwalk := h.walk_file hname hfolder hfile.isName
  rw [Disk.writeDocument, Loop.get_bind, Disk.freeTemporary_eq htemporary hfree]
  refine Disk.writeThrough_ok htemporary hfree hwalk hplace ?_ htext
  intro e
  exact hfile.ne_temporaryName (by simpa using e)

/-- A document that cannot be written leaves the folder of a blueprint as it is. -/
theorem Stands.writeDocument_error (h : s.Stands d.tree way) (hfile : IsFile file)
    (hfolder : d.tree.find? (way ++ [name]) = some .folder)
    (hfree : d.tree.find? (way ++ [name, Disk.temporaryName file]) = none) {document : Json}
    {fault : Fault} (htext : Disk.documentText document = .error fault) :
    Disk.writeDocument ((s.folder.child name).child file) document d = .error fault d := by
  have htemporary := h.walk_file (h.isName hfolder) hfolder hfile.isName_temporaryName
  rw [Disk.writeDocument, Loop.get_bind, Disk.freeTemporary_eq htemporary hfree]
  exact Disk.writeThrough_error htemporary hfree htext

/-! ### Changes inside a store -/

/-- A change below a folder touches what it names below the folder, and no other. -/
theorem find?_insert_below {t : Tree} {below : List String} (h : below ≠ []) (entry : Entry)
    (other : List String) :
    (t.insert (way ++ below) entry).find? (way ++ other)
      = if other = below then some entry else t.find? (way ++ other) := by
  rw [Tree.find?_insert (by simp [h])]
  by_cases ho : other = below
  · rw [if_pos ho, if_pos (by rw [ho])]
  · rw [if_neg ho, if_neg fun e => ho (List.append_cancel_left e)]

/-- A change below a folder touches nothing outside it. -/
theorem find?_insert_outside {t : Tree} {below other : List String} (h : below ≠ []) (entry : Entry)
    (hother : ¬ way <+: other) : (t.insert (way ++ below) entry).find? other = t.find? other := by
  refine Tree.find?_insert_of_ne (by simp [h]) ?_ entry t
  rintro rfl
  exact hother (List.prefix_append way below)

/-- The folder of a store stands firm when something is made or replaced below it. -/
theorem Stands.insert {t : Tree} (h : s.Stands t way) {below : List String} (hbelow : below ≠ [])
    {entry : Entry} (hentry : t.find? (way ++ below) = some .folder → entry = .folder)
    (hname : ∀ name, below = [name] → Tree.IsName name) :
    s.Stands (t.insert (way ++ below) entry) way := by
  have hkeep := Tree.keepsFolders_insert (by simp [hbelow]) hentry
  refine ⟨Tree.walk_mono hkeep h.walk, hkeep way h.folder, h.room, fun name hsome => ?_⟩
  rw [find?_insert_below hbelow] at hsome
  split at hsome
  · rename_i e
    exact hname name e.symm
  · exact h.named name hsome

theorem Stands.insert_file {t : Tree} (h : s.Stands t way)
    (hplace : t.find? (way ++ [name, file]) ≠ some .folder) (text : String) :
    s.Stands (t.insert (way ++ [name, file]) (.file text)) way :=
  h.insert (List.cons_ne_nil _ _) (fun hfolder => absurd hfolder hplace) fun _ e => by cases e

theorem Stands.insert_folder {t : Tree} (h : s.Stands t way) (hname : Tree.IsName name) :
    s.Stands (t.insert (way ++ [name]) .folder) way :=
  h.insert (List.cons_ne_nil _ _) (fun _ => rfl) fun _ e => by
    cases e
    exact hname

/-- The two documents of a blueprint are written into its folder. -/
theorem Stands.writeBoth_ok (h : s.Stands d.tree way)
    (hfolder : d.tree.find? (way ++ [name]) = some .folder)
    (hfree : ∀ file, IsFile file → d.tree.find? (way ++ [name, Disk.temporaryName file]) = none)
    (hplace : ∀ file, IsFile file → d.tree.find? (way ++ [name, file]) ≠ some .folder)
    {document : Json} {description : Description} {text text' : String}
    (htext : Disk.documentText document = .ok text)
    (htext' : Disk.documentText description.document = .ok text') :
    writeBoth (s.folder.child name) document description d = .ok () { d with
      tree := (d.tree.insert (way ++ [name, blueprintFile]) (.file text)).insert
        (way ++ [name, descriptionFile]) (.file text') } := by
  have hblueprint :=
    h.writeDocument_ok (.inl rfl) hfolder (hfree _ (.inl rfl)) (hplace _ (.inl rfl)) htext
  -- the first file is in the way of nothing that the second one needs
  have hother (file : String) (hfile : file ≠ blueprintFile) :
      (d.tree.insert (way ++ [name, blueprintFile]) (.file text)).find? (way ++ [name, file])
        = d.tree.find? (way ++ [name, file]) := by
    rw [find?_insert_below (List.cons_ne_nil _ _), if_neg (by simp [hfile])]
  have hstands := h.insert_file (hplace _ (.inl rfl)) text
  have hfolder' : (d.tree.insert (way ++ [name, blueprintFile]) (.file text)).find? (way ++ [name])
      = some .folder := by
    rw [find?_insert_below (List.cons_ne_nil _ _), if_neg (by simp), hfolder]
  have hdescription := Stands.writeDocument_ok
    (d := { d with tree := d.tree.insert (way ++ [name, blueprintFile]) (.file text) }) hstands
    (.inr rfl) hfolder' ((hother _ (by decide)).trans (hfree _ (.inr rfl)))
    (by rw [hother _ (by decide)]; exact hplace _ (.inr rfl)) htext'
  exact (Loop.bind_of_ok hblueprint).trans hdescription

/-! ### Requests that write -/

section

variable {folder fresh text' : String} {document : Json} {previous : Description}

/-- A description is replaced. -/
theorem Stands.describe_ok (h : s.Stands d.tree way)
    (hfind : s.find? d.tree name = .ok (some (s.folder.child folder, previous)))
    (hfolder : d.tree.find? (way ++ [folder]) = some .folder)
    (hfree : d.tree.find? (way ++ [folder, Disk.temporaryName descriptionFile]) = none)
    (hplace : d.tree.find? (way ++ [folder, descriptionFile]) ≠ some .folder) {written : String}
    (hwritten : Disk.documentText (Description.of text folder name).document = .ok written) :
    s.describe name text d
      = .ok () { d with tree := d.tree.insert (way ++ [folder, descriptionFile]) (.file written) } := by
  have hwrite := h.writeDocument_ok (.inr rfl) hfolder hfree hplace hwritten
  rw [describe, Loop.get_bind, hfind]
  show Disk.writeDocument _ (Description.of text (s.folder.child folder).name name).document d = _
  rw [Location.name_child]
  exact hwrite

/-- What is not found has no description to be replaced. -/
theorem describe_error (hfind : s.find? d.tree name = .ok none) (text : String) :
    s.describe name text d = .error (.noBlueprint name) d := by
  rw [describe, Loop.get_bind, hfind]
  rfl

/-- What is found is not replaced unless that is wanted. -/
theorem saveIn_kept {found : Location × Description} (hfind : s.find? d.tree name = .ok (some found))
    (fresh : String) (document : Json) : s.saveIn fresh name document false d = .ok false d := by
  rw [saveIn, Loop.get_bind, hfind]
  rfl

/-- A blueprint is replaced, and its description is written again with the text that it had. -/
theorem Stands.saveIn_over (h : s.Stands d.tree way)
    (hfind : s.find? d.tree name = .ok (some (s.folder.child folder, previous)))
    (hfolder : d.tree.find? (way ++ [folder]) = some .folder)
    (hfree : ∀ file, IsFile file → d.tree.find? (way ++ [folder, Disk.temporaryName file]) = none)
    (hplace : ∀ file, IsFile file → d.tree.find? (way ++ [folder, file]) ≠ some .folder)
    (htext : Disk.documentText document = .ok text)
    (htext' : Disk.documentText (Description.of previous.text folder name).document = .ok text')
    (fresh : String) :
    s.saveIn fresh name document true d = .ok true { d with
      tree := (d.tree.insert (way ++ [folder, blueprintFile]) (.file text)).insert
        (way ++ [folder, descriptionFile]) (.file text') } := by
  have hwrite := h.writeBoth_ok hfolder hfree hplace htext htext'
  rw [saveIn, Loop.get_bind, hfind]
  show (writeBoth (s.folder.child folder) document
    (.of previous.text (s.folder.child folder).name name) >>= _) d = _
  rw [Location.name_child]
  exact Loop.bind_of_ok hwrite

/-- A blueprint with a new name gets the fresh folder, if nothing is there. -/
theorem Stands.saveIn_new (h : s.Stands d.tree way) (hfind : s.find? d.tree name = .ok none)
    (hname : Tree.IsName fresh) (hfree : ∀ below, d.tree.find? (way ++ fresh :: below) = none)
    (htext : Disk.documentText document = .ok text)
    (htext' : Disk.documentText (Description.of Description.noText fresh name).document = .ok text')
    (overwrite : Bool) :
    s.saveIn fresh name document overwrite d = .ok true
      ⟨((d.tree.insert (way ++ [fresh]) .folder).insert
        (way ++ [fresh, blueprintFile]) (.file text)).insert
          (way ++ [fresh, descriptionFile]) (.file text'), d.created + 1⟩ := by
  have hmake := Disk.makeFolders_ok (d := { d with created := d.created + 1 })
    (h.walk_entry hname) (hfree [])
  have hempty (file : String) :
      (d.tree.insert (way ++ [fresh]) .folder).find? (way ++ [fresh, file]) = none := by
    rw [find?_insert_below (List.cons_ne_nil _ _), if_neg (by simp)]
    exact hfree [file]
  have hwrite := Stands.writeBoth_ok
    (d := ⟨d.tree.insert (way ++ [fresh]) .folder, d.created + 1⟩) (h.insert_folder hname)
    (by rw [find?_insert_below (List.cons_ne_nil _ _), if_pos rfl]) (fun file _ => hempty _)
    (fun file _ => by rw [hempty]; exact nofun) htext htext'
  rw [saveIn, Loop.get_bind, hfind]
  show (Disk.onTree (Tree.makeFolders (s.folder.child fresh)) >>= _) ⟨d.tree, d.created + 1⟩ = _
  refine (Loop.bind_of_ok hmake).trans ?_
  show (writeBoth (s.folder.child fresh) document
    (.of Description.noText (s.folder.child fresh).name name) >>= _) _ = _
  rw [Location.name_child]
  exact Loop.bind_of_ok hwrite

end

end Store

end Breadboard
