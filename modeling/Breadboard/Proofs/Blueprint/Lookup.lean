import Breadboard.Blueprint.Store
import Breadboard.Proofs.Folder.Tree
import Breadboard.Proofs.Loop

/-!
**Looking up blueprints.**

A folder of a store is passed over unless its description can be decoded, read and validated, or
stops the reader.  What stops the reader are bytes that are no text, integers that are too long and
documents that are too deep; any other flaw of a description is passed over.

Main definitions:

* `Store.Stands` — the folder of a store is there;
* `Store.Describes` — a folder of the store has a description that can be read;
* `Store.Stops` — a folder of the store has a description that stops the reader;
* `Store.Passes` — a folder of the store is passed over when a name is looked up.

Main results:

* `Store.Describes.descriptionIn`, `Store.Stops.descriptionIn`, `Store.Stands.descriptionIn_eq_none`
  — what is made of a folder;
* `Store.Stands.find?_eq_none`, `Store.Stands.find?_eq_some`, `Store.Stands.find?_eq_error` — **the
  first folder in order that is not passed over decides what is found**;
* `Store.Stands.names_eq`, `Store.Stands.names_eq_error` — **the names are those of the descriptions
  that can be read, in the order of their folders**;
* `Store.Stands.load_ok` — a blueprint is loaded from the folder of its name.
-/

set_option autoImplicit false
set_option relaxedAutoImplicit false

namespace Breadboard

theorem Location.HasRoom.child {l : Location} (h : l.HasRoom) {name : String}
    (hname : Tree.IsName name) : (l.child name).display.utf8ByteSize < Tree.pathLimit := by
  have hsize := l.size_display_child name
  have hshort := hname.short
  rw [Location.HasRoom] at h
  omega

theorem Location.HasRoom.grandchild {l : Location} (h : l.HasRoom) {name file : String}
    (hname : Tree.IsName name) (hfile : Tree.IsName file) :
    ((l.child name).child file).display.utf8ByteSize < Tree.pathLimit := by
  have hsize := l.size_display_child name
  have hsize' := (l.child name).size_display_child file
  have hshort := hname.short
  have hshort' := hfile.short
  rw [Location.HasRoom] at h
  omega

namespace Store

/-- The folder of a store is there: it is reached on the given way, there is room below it, and what
is in it has names that files can have. -/
structure Stands (s : Store) (t : Tree) (way : List String) : Prop where
  walk : t.walk s.folder = .ok way
  folder : t.find? way = some .folder
  room : s.folder.HasRoom
  named : ∀ name, (t.find? (way ++ [name])).isSome = true → Tree.IsName name

/-- A folder of a store has a description that is decoded, read and validated. -/
def Describes (t : Tree) (way : List String) (name : String) (d : Description) : Prop :=
  t.find? (way ++ [name]) = some .folder ∧ ∃ text document,
    t.find? (way ++ [name, descriptionFile]) = some (.file text)
      ∧ Json.read (String.ofList (Tree.plainLines text.toList)) = .ok document
      ∧ Description.check document = .ok d

/-- A folder of a store has a description that stops the reader: its bytes are no text, or the text
has an integer that is too long or is too deep. -/
inductive Stops (t : Tree) (way : List String) (name : String) : Fault → Prop where
  | undecodable (folder : t.find? (way ++ [name]) = some .folder)
      (file : t.find? (way ++ [name, descriptionFile]) = some .binary) :
      Stops t way name .undecodableText
  | longInteger {text : String} {digits : Nat} (folder : t.find? (way ++ [name]) = some .folder)
      (file : t.find? (way ++ [name, descriptionFile]) = some (.file text))
      (flaw : Json.read (String.ofList (Tree.plainLines text.toList)) = .error (.longInteger digits)) :
      Stops t way name (.longInteger digits)
  | tooDeep {text : String} {inObject : Bool} (folder : t.find? (way ++ [name]) = some .folder)
      (file : t.find? (way ++ [name, descriptionFile]) = some (.file text))
      (flaw : Json.read (String.ofList (Tree.plainLines text.toList)) = .error (.tooDeep inObject)) :
      Stops t way name (.deepDocument inObject)

theorem isName_descriptionFile : Tree.IsName descriptionFile :=
  ⟨by decide, by decide, by decide⟩

theorem isName_blueprintFile : Tree.IsName blueprintFile :=
  ⟨by decide, by decide, by decide⟩

variable {s : Store} {t : Tree} {way : List String} {name : String}

theorem Stands.walk_entry (h : s.Stands t way) (hname : Tree.IsName name) :
    t.walk (s.folder.child name) = .ok (way ++ [name]) :=
  Tree.walk_child h.walk h.folder hname (h.room.child hname)

theorem Stands.walk_file {file : String} (h : s.Stands t way) (hname : Tree.IsName name)
    (hfolder : t.find? (way ++ [name]) = some .folder) (hfile : Tree.IsName file) :
    t.walk ((s.folder.child name).child file) = .ok (way ++ [name, file]) := by
  rw [Tree.walk_child (h.walk_entry hname) hfolder hfile (h.room.grandchild hname hfile),
    List.append_assoc]
  rfl

theorem Stands.isName (h : s.Stands t way) {entry : Entry}
    (hentry : t.find? (way ++ [name]) = some entry) : Tree.IsName name := h.named name (by rw [hentry]; rfl)

/-- What is no folder is passed over. -/
theorem Stands.descriptionIn_stray (h : s.Stands t way) (hname : Tree.IsName name)
    (hstray : t.find? (way ++ [name]) ≠ some .folder) :
    descriptionIn t (s.folder.child name) = .ok none := by
  unfold descriptionIn
  rw [Tree.isFolder_of_walk (h.walk_entry hname), decide_eq_false hstray]
  rfl

/-- A folder is asked for its description. -/
theorem Stands.descriptionIn_folder (h : s.Stands t way)
    (hfolder : t.find? (way ++ [name]) = some .folder) :
    descriptionIn t (s.folder.child name) = (do
      if ← t.isFile ((s.folder.child name).child descriptionFile) then
        let text ← t.readText ((s.folder.child name).child descriptionFile)
        pure ((← Disk.document? text).bind fun document => (Description.check document).toOption)
      else pure none) := by
  unfold descriptionIn
  rw [Tree.isFolder_of_walk (h.walk_entry (h.isName hfolder)), hfolder]
  rfl

/-- A folder without a file for the description is passed over. -/
theorem Stands.descriptionIn_bare (h : s.Stands t way)
    (hfolder : t.find? (way ++ [name]) = some .folder)
    (hfile : t.find? (way ++ [name, descriptionFile]) = none
      ∨ t.find? (way ++ [name, descriptionFile]) = some .folder) :
    descriptionIn t (s.folder.child name) = .ok none := by
  have hwalk := h.walk_file (h.isName hfolder) hfolder isName_descriptionFile
  rw [h.descriptionIn_folder hfolder, Tree.isFile, Tree.entry?_of_walk hwalk]
  rcases hfile with hfile | hfile <;> rw [hfile] <;> rfl

/-- Bytes that are no text stop the reader. -/
theorem Stands.descriptionIn_binary (h : s.Stands t way)
    (hfolder : t.find? (way ++ [name]) = some .folder)
    (hfile : t.find? (way ++ [name, descriptionFile]) = some .binary) :
    descriptionIn t (s.folder.child name) = .error .undecodableText := by
  have hwalk := h.walk_file (h.isName hfolder) hfolder isName_descriptionFile
  rw [h.descriptionIn_folder hfolder, Tree.isFile, Tree.entry?_of_walk hwalk, hfile, Tree.readText,
    hwalk]
  simp only [bind, Except.bind, hfile]
  rfl

/-- A text is read and validated. -/
theorem Stands.descriptionIn_text (h : s.Stands t way) {text : String}
    (hfolder : t.find? (way ++ [name]) = some .folder)
    (hfile : t.find? (way ++ [name, descriptionFile]) = some (.file text)) :
    descriptionIn t (s.folder.child name) = (do
      pure ((← Disk.document? (String.ofList (Tree.plainLines text.toList))).bind fun document =>
        (Description.check document).toOption)) := by
  have hwalk := h.walk_file (h.isName hfolder) hfolder isName_descriptionFile
  rw [h.descriptionIn_folder hfolder, Tree.isFile, Tree.entry?_of_walk hwalk, hfile, Tree.readText,
    hwalk]
  simp only [bind, Except.bind, hfile]
  rfl

/-- A description that can be read is found in its folder. -/
theorem Describes.descriptionIn {d : Description} (h : s.Stands t way) (hd : Describes t way name d) :
    descriptionIn t (s.folder.child name) = .ok (some d) := by
  obtain ⟨hfolder, text, document, hfile, hread, hcheck⟩ := hd
  rw [h.descriptionIn_text hfolder hfile, Disk.document?, hread]
  show Except.ok (Description.check document).toOption = _
  rw [hcheck]
  rfl

/-- A description that stops the reader is a failure. -/
theorem Stops.descriptionIn {fault : Fault} (h : s.Stands t way) (hstops : Stops t way name fault) :
    descriptionIn t (s.folder.child name) = .error fault := by
  cases hstops with
  | undecodable hfolder hfile => exact h.descriptionIn_binary hfolder hfile
  | longInteger hfolder hfile hflaw =>
      rw [h.descriptionIn_text hfolder hfile, Disk.document?, hflaw]
      rfl
  | tooDeep hfolder hfile hflaw =>
      rw [h.descriptionIn_text hfolder hfile, Disk.document?, hflaw]
      rfl

/-- **Everything else is passed over.** -/
theorem Stands.descriptionIn_eq_none (h : s.Stands t way) (hname : Tree.IsName name)
    (hdescribes : ∀ d, ¬ Describes t way name d) (hstops : ∀ fault, ¬ Stops t way name fault) :
    descriptionIn t (s.folder.child name) = .ok none := by
  by_cases hfolder : t.find? (way ++ [name]) = some .folder
  · cases hfile : t.find? (way ++ [name, descriptionFile]) with
    | none => exact h.descriptionIn_bare hfolder (.inl hfile)
    | some entry =>
        cases entry with
        | folder => exact h.descriptionIn_bare hfolder (.inr hfile)
        | binary => exact absurd (.undecodable hfolder hfile) (hstops _)
        | file text =>
            rw [h.descriptionIn_text hfolder hfile, Disk.document?]
            cases hread : Json.read (String.ofList (Tree.plainLines text.toList)) with
            | error flaw =>
                cases flaw with
                | malformed => rfl
                | longInteger digits => exact absurd (.longInteger hfolder hfile hread) (hstops _)
                | tooDeep inObject => exact absurd (.tooDeep hfolder hfile hread) (hstops _)
            | ok document =>
                cases hcheck : Description.check document with
                | error issues =>
                    show Except.ok (Description.check document).toOption = _
                    rw [hcheck]
                    rfl
                | ok d =>
                    exact absurd ⟨hfolder, text, document, hfile, hread, hcheck⟩ (hdescribes d)
  · exact h.descriptionIn_stray hname hfolder

/-! ### Looking up a name -/

/-- A folder of the store is passed over when a name is looked up. -/
def Passes (t : Tree) (way : List String) (wanted name : String) : Prop :=
  (∀ fault, ¬ Stops t way name fault) ∧ ∀ d, Describes t way name d → d.name ≠ wanted

/-- The entries of a store are the names in its folder, in order. -/
theorem Stands.entries_eq (h : s.Stands t way) :
    ∃ names : List String, s.entries t = .ok (names.map s.folder.child)
      ∧ names.Pairwise (fun a b => Sorted.textLt a b = true)
      ∧ ∀ name, name ∈ names ↔ (t.find? (way ++ [name])).isSome = true := by
  obtain ⟨names, hlist, hsorted, hmem⟩ := Tree.listFolder_of_walk h.walk h.folder
  refine ⟨names, ?_, hsorted, hmem⟩
  rw [entries, hlist]
  rfl

/-- What a name has to be looked up behind. -/
theorem Stands.findAmong_append (h : s.Stands t way) {wanted : String} {before : List String}
    (hnames : ∀ name ∈ before, Tree.IsName name) (hpasses : ∀ name ∈ before, Passes t way wanted name)
    (rest : List Location) :
    findAmong t wanted (before.map s.folder.child ++ rest) = findAmong t wanted rest := by
  induction before with
  | nil => rfl
  | cons name before ih =>
      have hrest := ih (fun n hn => hnames n (List.mem_cons_of_mem _ hn))
        fun n hn => hpasses n (List.mem_cons_of_mem _ hn)
      obtain ⟨hstops, hother⟩ := hpasses name List.mem_cons_self
      rw [List.map_cons, List.cons_append, findAmong]
      by_cases hd : ∃ d, Describes t way name d
      · obtain ⟨d, hd⟩ := hd
        rw [hd.descriptionIn h]
        show (if d.name = wanted then _ else findAmong t wanted _) = _
        rw [if_neg (hother d hd), hrest]
      · rw [h.descriptionIn_eq_none (hnames name List.mem_cons_self) (not_exists.1 hd) hstops]
        exact hrest

/-- The entries in front of one of them come before it. -/
theorem Stands.exists_split (h : s.Stands t way) {entry : Entry}
    (hentry : t.find? (way ++ [name]) = some entry) :
    ∃ before after : List String, s.entries t
        = .ok (before.map s.folder.child ++ s.folder.child name :: after.map s.folder.child)
      ∧ ∀ other ∈ before, Tree.IsName other ∧ Sorted.textLt other name = true := by
  obtain ⟨names, hentries, hsorted, hmem⟩ := h.entries_eq
  obtain ⟨before, after, rfl⟩ := List.append_of_mem ((hmem name).2 (by rw [hentry]; rfl))
  refine ⟨before, after, ?_, fun other hother => ⟨?_, ?_⟩⟩
  · rw [hentries, List.map_append, List.map_cons]
  · exact h.named other ((hmem other).1 (List.mem_append_left _ hother))
  · exact (List.pairwise_append.1 hsorted).2.2 other hother name List.mem_cons_self

/-- **A name is not found if every folder is passed over.** -/
theorem Stands.find?_eq_none (h : s.Stands t way) {wanted : String}
    (hpasses : ∀ name, Passes t way wanted name) : s.find? t wanted = .ok none := by
  obtain ⟨names, hentries, _, hmem⟩ := h.entries_eq
  rw [find?, hentries, ← List.append_nil (names.map s.folder.child)]
  exact h.findAmong_append (fun name hname => h.named name ((hmem name).1 hname))
    (fun name _ => hpasses name) []

/-- **The first folder with the name is found.** -/
theorem Stands.find?_eq_some (h : s.Stands t way) {d : Description}
    (hbefore : ∀ other, Sorted.textLt other name = true → Passes t way d.name other)
    (hd : Describes t way name d) : s.find? t d.name = .ok (some (s.folder.child name, d)) := by
  obtain ⟨before, after, hentries, hsorted⟩ := h.exists_split hd.1
  rw [find?, hentries]
  refine (h.findAmong_append (fun other hother => (hsorted other hother).1)
    (fun other hother => hbefore other (hsorted other hother).2) _).trans ?_
  rw [findAmong, hd.descriptionIn h]
  exact if_pos rfl

/-- **A description that stops the reader stops the search.** -/
theorem Stands.find?_eq_error (h : s.Stands t way) {wanted : String} {fault : Fault}
    (hbefore : ∀ other, Sorted.textLt other name = true → Passes t way wanted other)
    (hstops : Stops t way name fault) : s.find? t wanted = .error fault := by
  have hfolder : t.find? (way ++ [name]) = some .folder := by cases hstops <;> assumption
  obtain ⟨before, after, hentries, hsorted⟩ := h.exists_split hfolder
  rw [find?, hentries]
  refine (h.findAmong_append (fun other hother => (hsorted other hother).1)
    (fun other hother => hbefore other (hsorted other hother).2) _).trans ?_
  rw [findAmong, hstops.descriptionIn h]
  rfl

/-! ### All names -/

/-- A folder is described in one way only. -/
theorem Describes.unique {d d' : Description} (h : Describes t way name d)
    (h' : Describes t way name d') : d = d' := by
  obtain ⟨_, text, document, hfile, hread, hcheck⟩ := h
  obtain ⟨_, text', document', hfile', hread', hcheck'⟩ := h'
  cases hfile.symm.trans hfile'
  cases hread.symm.trans hread'
  cases hcheck.symm.trans hcheck'
  rfl

/-- What is made of a folder that does not stop the reader is its description, if it has one. -/
theorem Stands.exists_descriptionIn (h : s.Stands t way) (hname : Tree.IsName name)
    (hstops : ∀ fault, ¬ Stops t way name fault) :
    ∃ found, descriptionIn t (s.folder.child name) = .ok found
      ∧ ∀ d, found = some d ↔ Describes t way name d := by
  by_cases hd : ∃ d, Describes t way name d
  · obtain ⟨d, hd⟩ := hd
    refine ⟨some d, hd.descriptionIn h, fun d' => ⟨?_, fun hd' => congrArg some (hd.unique hd')⟩⟩
    rintro ⟨⟩
    exact hd
  · refine ⟨none, h.descriptionIn_eq_none hname (not_exists.1 hd) hstops, fun d' => ⟨?_, ?_⟩⟩
    · rintro ⟨⟩
    · exact fun hd' => absurd ⟨d', hd'⟩ hd

/-- The description at a location, if there is one and it can be read. -/
def readable? (t : Tree) (entry : Location) : Option Description := (descriptionIn t entry).toOption.join

theorem Stands.readable?_spec (h : s.Stands t way) (hname : Tree.IsName name)
    (hstops : ∀ fault, ¬ Stops t way name fault) :
    descriptionIn t (s.folder.child name) = .ok (readable? t (s.folder.child name))
      ∧ ∀ d, readable? t (s.folder.child name) = some d ↔ Describes t way name d := by
  obtain ⟨found, hfound, hd⟩ := h.exists_descriptionIn hname hstops
  have hjoin : readable? t (s.folder.child name) = found := by
    rw [readable?, hfound]
    cases found <;> rfl
  rw [hjoin]
  exact ⟨hfound, hd⟩

/-- **The names are those of the descriptions that can be read, in the order of their folders**, if
no description stops the reader. -/
theorem Stands.names_eq (h : s.Stands t way) (hstops : ∀ name fault, ¬ Stops t way name fault) :
    ∃ described : List (String × Description),
      s.names t = .ok (described.map fun e => e.2.name)
        ∧ described.Pairwise (fun a b => Sorted.textLt a.1 b.1 = true)
        ∧ ∀ name d, (name, d) ∈ described ↔ Describes t way name d := by
  obtain ⟨names, hentries, hsorted, hmem⟩ := h.entries_eq
  have hspec (name : String) (hname : name ∈ names) :=
    h.readable?_spec (h.named name ((hmem name).1 hname)) (hstops name)
  refine ⟨names.filterMap fun name => (readable? t (s.folder.child name)).map fun d => (name, d),
    ?_, ?_, ?_⟩
  · have hall : (names.map s.folder.child).mapM (fun entry => do
          pure ((← descriptionIn t entry).map fun d => (entry, d)))
        = .ok ((names.map s.folder.child).map fun entry =>
          (readable? t entry).map fun d => (entry, d)) := by
      refine Loop.mapM_eq_map fun entry hentry => ?_
      obtain ⟨name, hname, rfl⟩ := List.mem_map.1 hentry
      rw [(hspec name hname).1]
      rfl
    unfold Store.names descriptions
    rw [hentries]
    simp only [bind, Except.bind, pure, Except.pure] at hall ⊢
    rw [hall]
    simp only [List.filterMap_map, List.map_filterMap, Function.comp_def, id_eq, Option.map_map]
  · rw [List.pairwise_filterMap]
    refine hsorted.imp ?_
    intro a b hab x hx y hy
    obtain ⟨_, _, rfl⟩ := Option.map_eq_some_iff.1 hx
    obtain ⟨_, _, rfl⟩ := Option.map_eq_some_iff.1 hy
    exact hab
  · intro name d
    rw [List.mem_filterMap]
    constructor
    · rintro ⟨other, hother, hd⟩
      obtain ⟨d', hd', e⟩ := Option.map_eq_some_iff.1 hd
      cases e
      exact ((hspec name hother).2 d).1 hd'
    · intro hd
      have hname : name ∈ names := (hmem name).2 (by rw [hd.1]; rfl)
      refine ⟨name, hname, ?_⟩
      rw [((hspec name hname).2 d).2 hd]
      rfl

/-- **A description that stops the reader stops the listing.** -/
theorem Stands.names_eq_error (h : s.Stands t way) {fault : Fault}
    (hbefore : ∀ other, Sorted.textLt other name = true → ∀ fault, ¬ Stops t way other fault)
    (hstops : Stops t way name fault) : s.names t = .error fault := by
  have hfolder : t.find? (way ++ [name]) = some .folder := by cases hstops <;> assumption
  obtain ⟨before, after, hentries, hsorted⟩ := h.exists_split hfolder
  have hfails : (before.map s.folder.child ++ s.folder.child name :: after.map s.folder.child).mapM
      (fun entry => do pure ((← descriptionIn t entry).map fun d => (entry, d)))
      = (.error fault : Except Fault (List (Option (Location × Description)))) := by
    clear hentries
    induction before with
    | nil =>
        rw [List.map_nil, List.nil_append, List.mapM_cons, hstops.descriptionIn h]
        rfl
    | cons other before ih =>
        obtain ⟨hname, hlt⟩ := hsorted other List.mem_cons_self
        obtain ⟨found, hfound, _⟩ := h.exists_descriptionIn hname (hbefore other hlt)
        rw [List.map_cons, List.cons_append, List.mapM_cons, hfound,
          ih fun n hn => hsorted n (List.mem_cons_of_mem _ hn)]
        rfl
  unfold Store.names descriptions
  rw [hentries]
  simp only [bind, Except.bind, pure, Except.pure] at hfails ⊢
  rw [hfails]

/-! ### Loading -/

/-- A blueprint is loaded if its file can be read and validated, whatever the other folders hold. -/
theorem Stands.load_ok (h : s.Stands t way) {folder text : String} {d : Description} {document : Json}
    {blueprint : Blueprint} (hfind : s.find? t name = .ok (some (s.folder.child folder, d)))
    (hfolder : t.find? (way ++ [folder]) = some .folder)
    (hfile : t.find? (way ++ [folder, blueprintFile]) = some (.file text))
    (hread : Json.read (String.ofList (Tree.plainLines text.toList)) = .ok document)
    (hcheck : Blueprint.check document = .ok blueprint) : s.load t name = .ok blueprint := by
  have hwalk := h.walk_file (h.isName hfolder) hfolder isName_blueprintFile
  have htext : t.readText ((s.folder.child folder).child blueprintFile)
      = .ok (String.ofList (Tree.plainLines text.toList)) := by
    rw [Tree.readText, hwalk]
    simp only [bind, Except.bind, hfile]
    rfl
  have hdocument : Disk.document? (String.ofList (Tree.plainLines text.toList))
      = .ok (some document) := by
    rw [Disk.document?, hread]
  rw [load, hfind]
  simp only [bind, Except.bind, htext, hdocument, hcheck, Checked.orFault]

/-- What is not found cannot be loaded. -/
theorem load_error (hfind : s.find? t name = .ok none) : s.load t name = .error (.noBlueprint name) := by
  rw [load, hfind]
  rfl

end Store

end Breadboard
