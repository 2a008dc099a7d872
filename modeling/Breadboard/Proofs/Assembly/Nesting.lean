import Breadboard.Proofs.Assembly.Forwarding
import Breadboard.Proofs.Assembly.Renumbered

/-!
**Assemblies inside assemblies.**

An assembly may be compiled, and the circuit that it gives be added to another one.  Or its own
circuits are added to the other one right away, at the places where they come to stand, with its own
links and with the links of the other one led past its slots.  The links connect the same units both
ways: the units of its circuits stand behind one another in either case, and a slot that was passed
on shows what the sector reaches from which it was passed.

Main definitions:

* `Assembly.renamed` — circuits under new names;
* `Assembly.through` — a path into the compiled circuit, led past the slots that were passed on;
* `Assembly.Flattens` — an assembly with the circuits of another one in place of what that one was
  compiled to;
* `Assembly.Resolves` — both paths of a link lead to sectors.

Main results:

* `Assembly.Flattens.part`, `Assembly.Flattens.other` — the numbers of units in both assemblies;
* `Assembly.exists_denotes_through` — **a path that is led past a slot reaches the same units**;
* `Assembly.mapM_linkConnections_flat` — **the links of both assemblies connect the same units**.
-/

set_option autoImplicit false
set_option relaxedAutoImplicit false

namespace Breadboard

open Renumbering (along)

/-- A link goes the same way by other paths. -/
structure Link.Redirects (onSource onTarget : Path → Path) (link link' : Link) : Prop where
  wiring : link'.wiring = link.wiring
  source : Path.read defaultSlot link'.source = onSource (Path.read defaultSlot link.source)
  target : Path.read defaultSlot link'.target = onTarget (Path.read defaultSlot link.target)

namespace Assembly

/-! ### Circuits under new names -/

/-- Circuits under new names. -/
def renamed (rename : String → String) (schemes : Keyed Circuit) : Keyed Circuit :=
  schemes.map fun s => (rename s.1, s.2)

section Renamed

variable {rename : String → String} {schemes : Keyed Circuit}

theorem renamed_cons (name : String) (c : Circuit) (rest : Keyed Circuit) :
    renamed rename ((name, c) :: rest) = (rename name, c) :: renamed rename rest := rfl

theorem mem_renamed {name : String} {c : Circuit} (h : (name, c) ∈ schemes) :
    (rename name, c) ∈ renamed rename schemes :=
  List.mem_map_of_mem (f := fun s : String × Circuit => (rename s.1, s.2)) h

theorem unitCount_renamed : unitCount (renamed rename schemes) = unitCount schemes := by
  simp [unitCount, renamed, List.flatMap_map]

/-- The numbers of units do not depend on the names. -/
theorem offset_renamed (hnames : (Keyed.names (renamed rename schemes)).Nodup) {name : String}
    {c : Circuit} (h : (name, c) ∈ schemes) :
    offset (renamed rename schemes) (rename name) = offset schemes name := by
  induction schemes with
  | nil => cases h
  | cons s rest ih =>
      obtain ⟨n, d⟩ := s
      rw [renamed_cons] at hnames ⊢
      by_cases hn : n = name
      · subst hn
        rw [offset_cons_self, offset_cons_self]
      · have hrest : (name, c) ∈ rest := by
          rcases List.mem_cons.1 h with e | h
          · exact absurd (Prod.mk.inj e).1.symm hn
          · exact h
        rw [offset_cons_of_ne d _ (ne_of_mem_tail hnames (mem_renamed hrest)),
          offset_cons_of_ne d _ hn, ih (List.nodup_cons.1 hnames).2 hrest]

end Renamed

/-! ### One assembly in place of another -/

/-- A path into the circuit `name` that `inner` was compiled to, led past the slot that it names to
the path from which that slot was passed.  A sector of a slot that was passed on as a whole keeps
its name; other paths stay. -/
def through (inner : Assembly) (name : String) (rename : String → String) (side : Side) (p : Path) :
    Path :=
  if p.scheme = name then
    match (inner.plans side).find? fun plan => plan.name == p.slot with
    | some plan =>
        { scheme := rename plan.passed.scheme
          slot := plan.passed.slot
          sector :=
            if plan.passed.sector = wholeSector then p.sector else plan.passed.sector }
    | none => p
  else p

/-- The assembly `flat` has the circuits of `inner`, under new names, in place of the circuit `c`
which `inner` was compiled to and which stands in `outer` under the name `name`, at `place` and not
turned.  Each of them is placed where it stands in `inner`, seen from the corner of `c`, and turned
as there.  The links of `inner` come first, and behind them the links of `outer`, led past the slots
of `inner`. -/
structure Flattens (inner : Assembly) (c : Circuit) (name : String) (place : Point)
    (rename : String → String) (outer flat : Assembly) : Prop where
  schemes : ∃ before after, outer.schemes = before ++ (name, c) :: after
    ∧ flat.schemes = before ++ (renamed rename inner.schemes ++ after)
  /-- The new names are different, and no other circuit has one of them. -/
  names : (Keyed.names flat.schemes).Nodup
  poses : ∃ p q r, inner.positioner = .manual p ∧ outer.positioner = .manual q
    ∧ flat.positioner = .manual r
    ∧ Keyed.find? name q.poses = some ⟨some place, .identity⟩
    ∧ (∀ other ∈ Keyed.names outer.schemes, other ≠ name →
        Keyed.find? other r.poses = Keyed.find? other q.poses)
    ∧ ∀ part ∈ Keyed.names inner.schemes, Keyed.find? (rename part) r.poses
        = (Keyed.find? part p.poses).map fun pose =>
            { pose with place := pose.place.map fun own => place + own - c.corner }
  links : ∃ own others, flat.links = own ++ others
    ∧ List.Forall₂ (Link.Redirects (fun p => { p with scheme := rename p.scheme })
        fun p => { p with scheme := rename p.scheme }) inner.links own
    ∧ List.Forall₂ (Link.Redirects (inner.through name rename .output)
        (inner.through name rename .input)) outer.links others
  inputs : flat.inputs = []
  outputs : flat.outputs = []
  config : flat.config = outer.config
  consumed : flat.consumed = outer.consumed

/-! ### Numbers of units in both assemblies -/

section Numbers

variable {S before after : Keyed Circuit} {c : Circuit} {name : String} {rename : String → String}

/-- The units of the compiled circuit stand behind those of the circuits before it. -/
theorem offset_nested (hnames : (Keyed.names (before ++ (name, c) :: after)).Nodup) :
    offset (before ++ (name, c) :: after) name = unitCount before := by
  have hnew : name ∉ Keyed.names before := by
    intro h
    rw [Keyed.names, List.map_append] at hnames
    exact (List.disjoint_of_nodup_append hnames) h (by simp)
  rw [offset_append_of_not_mem _ hnew, offset_cons_self, Nat.add_zero]

/-- The units of a circuit of the inner assembly stand in the order in which they stand there. -/
theorem offset_flat_part
    (hnames : (Keyed.names (before ++ (renamed rename S ++ after))).Nodup) {part : String}
    {d : Circuit} (h : (part, d) ∈ S) :
    offset (before ++ (renamed rename S ++ after)) (rename part)
      = unitCount before + offset S part := by
  have hmem : rename part ∈ Keyed.names (renamed rename S) :=
    List.mem_map_of_mem (f := Prod.fst) (mem_renamed h)
  rw [Keyed.names, List.map_append, List.map_append] at hnames
  have hnew : rename part ∉ Keyed.names before := fun hbefore =>
    List.disjoint_of_nodup_append hnames hbefore (List.mem_append_left _ hmem)
  have hnodup : (Keyed.names (renamed rename S)).Nodup :=
    (List.nodup_append.1 (List.nodup_append.1 hnames).2.1).1
  rw [offset_append_of_not_mem _ hnew, offset_append_of_mem _ hmem, offset_renamed hnodup h]

/-- The units of the other circuits have the same numbers in both assemblies. -/
theorem offset_flat_other (hcount : c.units.length = unitCount S)
    (hnames : (Keyed.names (before ++ (name, c) :: after)).Nodup)
    (hnames' : (Keyed.names (before ++ (renamed rename S ++ after))).Nodup) {other : String}
    {d : Circuit} (h : (other, d) ∈ before ∨ (other, d) ∈ after) :
    offset (before ++ (renamed rename S ++ after)) other
      = offset (before ++ (name, c) :: after) other := by
  rw [Keyed.names, List.map_append] at hnames
  rw [Keyed.names, List.map_append, List.map_append] at hnames'
  rcases h with h | h
  · have hmem : other ∈ Keyed.names before := List.mem_map_of_mem (f := Prod.fst) h
    rw [offset_append_of_mem _ hmem, offset_append_of_mem _ hmem]
  · have hmem : other ∈ Keyed.names after := List.mem_map_of_mem (f := Prod.fst) h
    have hbefore : other ∉ Keyed.names before := fun hb =>
      List.disjoint_of_nodup_append hnames hb (List.mem_cons_of_mem _ hmem)
    have hpart : other ∉ Keyed.names (renamed rename S) := fun hp =>
      List.disjoint_of_nodup_append (List.nodup_append.1 hnames').2.1 hp hmem
    have hne : name ≠ other := ne_of_mem_tail (List.nodup_append.1 hnames).2.1 h
    rw [offset_append_of_not_mem _ hbefore, offset_append_of_not_mem _ hpart,
      offset_append_of_not_mem _ hbefore, offset_cons_of_ne _ _ hne, unitCount_renamed, hcount]

end Numbers

/-! ### The circuits of both assemblies -/

section Circuits

variable {inner outer flat : Assembly} {c : Circuit} {name : String} {place : Point}
  {rename : String → String}

theorem Flattens.mem (h : Flattens inner c name place rename outer flat) :
    (name, c) ∈ outer.schemes := by
  obtain ⟨before, after, hschemes, _⟩ := h.schemes
  rw [hschemes]
  simp

/-- A circuit of the inner assembly is a circuit of the flat one; its units stand behind those of
the circuits that were added before the compiled one. -/
theorem Flattens.part (h : Flattens inner c name place rename outer flat) (houter : outer.Sound)
    {part : String} {d : Circuit} (hmem : (part, d) ∈ inner.schemes) :
    (rename part, d) ∈ flat.schemes
      ∧ offset flat.schemes (rename part)
          = offset outer.schemes name + offset inner.schemes part := by
  obtain ⟨before, after, hschemes, hflat⟩ := h.schemes
  have hnames := houter.names
  have hnames' := h.names
  rw [hschemes] at hnames
  rw [hflat] at hnames'
  rw [hflat, hschemes, offset_nested hnames, offset_flat_part hnames' hmem]
  exact ⟨List.mem_append_right _ (List.mem_append_left _ (mem_renamed hmem)), rfl⟩

/-- Another circuit is a circuit of both assemblies; its units have the same numbers. -/
theorem Flattens.other (h : Flattens inner c name place rename outer flat) (houter : outer.Sound)
    (hcount : c.units.length = unitCount inner.schemes) {other : String} {d : Circuit}
    (hne : other ≠ name) (hmem : (other, d) ∈ outer.schemes) :
    (other, d) ∈ flat.schemes ∧ offset flat.schemes other = offset outer.schemes other := by
  obtain ⟨before, after, hschemes, hflat⟩ := h.schemes
  have hnames := houter.names
  have hnames' := h.names
  rw [hschemes] at hnames hmem
  rw [hflat] at hnames'
  have hsides : (other, d) ∈ before ∨ (other, d) ∈ after := by
    rcases List.mem_append.1 hmem with hb | ha
    · exact .inl hb
    · rcases List.mem_cons.1 ha with e | ha
      · exact absurd (Prod.mk.inj e).1 hne
      · exact .inr ha
  rw [hflat, hschemes, offset_flat_other hcount hnames hnames' hsides]
  refine ⟨?_, rfl⟩
  rcases hsides with hb | ha
  · exact List.mem_append_left _ hb
  · exact List.mem_append_right _ (List.mem_append_right _ ha)

/-- The flat assembly has no further circuits. -/
theorem Flattens.cases (h : Flattens inner c name place rename outer flat) (houter : outer.Sound)
    {other : String} {d : Circuit} (hmem : (other, d) ∈ flat.schemes) :
    (other ≠ name ∧ (other, d) ∈ outer.schemes)
      ∨ ∃ part, other = rename part ∧ (part, d) ∈ inner.schemes := by
  obtain ⟨before, after, hschemes, hflat⟩ := h.schemes
  have hnames := houter.names
  rw [hschemes, Keyed.names, List.map_append] at hnames
  rw [hflat] at hmem
  rw [hschemes]
  rcases List.mem_append.1 hmem with hb | hmem
  · refine .inl ⟨?_, List.mem_append_left _ hb⟩
    rintro rfl
    exact List.disjoint_of_nodup_append hnames (List.mem_map_of_mem (f := Prod.fst) hb)
      List.mem_cons_self
  · rcases List.mem_append.1 hmem with hpart | ha
    · obtain ⟨⟨part, e⟩, he, heq⟩ := List.mem_map.1 hpart
      cases heq
      exact .inr ⟨part, rfl, he⟩
    · exact .inl ⟨(ne_of_mem_tail (List.nodup_append.1 hnames).2.1 ha).symm,
        List.mem_append_right _ (List.mem_cons_of_mem _ ha)⟩

/-- Both assemblies have as many units. -/
theorem Flattens.unitCount_eq (h : Flattens inner c name place rename outer flat)
    (hcount : c.units.length = unitCount inner.schemes) :
    unitCount flat.schemes = unitCount outer.schemes := by
  obtain ⟨before, after, hschemes, hflat⟩ := h.schemes
  rw [hschemes, hflat, unitCount_append, unitCount_append, unitCount_append, unitCount_cons,
    unitCount_renamed, hcount]

theorem Flattens.sound (h : Flattens inner c name place rename outer flat) (hinner : inner.Sound)
    (houter : outer.Sound) : flat.Sound := by
  refine ⟨h.names, fun s hs => ?_⟩
  rcases h.cases houter hs with ⟨_, hother⟩ | ⟨part, _, hpart⟩
  · exact houter.slots _ hother
  · exact hinner.slots (part, s.2) hpart

end Circuits

/-! ### Sectors and links -/

end Assembly

namespace Target

/-- The same sector with more units before it. -/
def behind (units : Nat) (t : Target) : Target := { t with offset := units + t.offset }

theorem unitsAt_behind (units : Nat) (t : Target) (p : Point) :
    (t.behind units).unitsAt p = (t.unitsAt p).map fun i => i + (units : Int) := by
  rw [unitsAt, unitsAt, List.map_map]
  refine List.map_congr_left fun i _ => ?_
  show i + ((units : Int) + t.offset) = i + t.offset + units
  omega

theorem reach_behind (units : Nat) (t : Target) (p : Point) :
    (t.behind units).reach p = (t.reach p).map fun i => i + (units : Int) := by
  rw [reach, reach, show (t.behind units).frame = t.frame from rfl]
  cases t.frame.lift? p with
  | none => rfl
  | some q => exact unitsAt_behind units t q

/-- More units before a sector give its units higher numbers. -/
theorem renumbers_behind {t : Target} (h : ∀ p, ∀ i ∈ t.unitsAt p, 0 ≤ i) (units : Nat) :
    t.Renumbers (fun i => units + i) (t.behind units) := by
  refine ⟨rfl, rfl, fun p => ?_⟩
  rw [unitsAt_behind]
  refine List.map_congr_left fun i hi => ?_
  have h0 := h p i hi
  rw [along]
  omega

end Target

namespace Assembly

/-- The units behind a path have numbers. -/
theorem Denotes.nonneg {a : Assembly} (ha : a.Sound) {side : Side} {p : Path} {t : Target}
    (h : Denotes a.schemes side p t) : ∀ q, ∀ i ∈ t.unitsAt q, 0 ≤ i := by
  obtain ⟨hoffset, c, hmem, hslot, _⟩ := h
  intro q i hi
  obtain ⟨j, hj, rfl⟩ := List.mem_map.1 hi
  have hrange := ha.slots _ hmem side t.slot (List.mem_of_find?_eq_some hslot) q j hj
  omega

/-- Both paths of a link lead to sectors. -/
def Resolves (schemes : Keyed Circuit) (link : Link) : Prop :=
  ∃ source target, (scope schemes .output).resolve link.source = .ok source
    ∧ (scope schemes .input).resolve link.target = .ok target

/-- A link that is not reported has paths that lead to sectors. -/
theorem resolves_of_linkReport {schemes : Keyed Circuit} {link : Link}
    (h : linkReport (scope schemes .output) (scope schemes .input) link = []) :
    Resolves schemes link := by
  unfold linkReport at h
  split at h
  · rename_i source target hsource htarget
    exact ⟨source, target, hsource, htarget⟩
  · cases h

/-- An assembly that is linked without anything to report has links that lead to sectors. -/
theorem Linking.resolves {a : Assembly} {places : Keyed (Point × Turn)}
    {connections : List (List (Int × Int))} {ins outs : List Slot × Keyed (List Unresolved)}
    {c : Circuit} {d : Diagnostics} (h : Linking a places connections ins outs c d)
    (hd : d.isEmpty = true) : ∀ link ∈ a.links, Resolves a.schemes link := by
  have hcount : d.links.length = 0 := by
    simp only [Diagnostics.isEmpty, Diagnostics.count, beq_iff_eq] at hd
    omega
  rw [h.reported, List.length_eq_zero_iff, List.flatMap_eq_nil_iff] at hcount
  exact fun link hlink => resolves_of_linkReport (hcount link hlink)

/-- Connections of units, with more units before them. -/
def connectionsBehind (units : Nat) : List (Int × Int) → List (Int × Int) :=
  List.map (Prod.map (along fun i => units + i) (along fun i => units + i))

/-! ### The inner assembly -/

section Nested

variable {inner outer flat : Assembly} {c : Circuit} {name : String} {place : Point}
  {rename : String → String} (h : Flattens inner c name place rename outer flat)
  (houter : outer.Sound)
include h houter

/-- A path into the inner assembly leads to the same sector there and in the flat assembly. -/
theorem denotes_part {side : Side} {p : Path} {t : Target} (ht : Denotes inner.schemes side p t) :
    Denotes flat.schemes side { p with scheme := rename p.scheme }
      (t.behind (offset outer.schemes name)) := by
  obtain ⟨hoffset, d, hmem, hslot, hsector⟩ := ht
  obtain ⟨hflat, hunits⟩ := h.part houter hmem
  refine ⟨?_, d, hflat, hslot, hsector⟩
  rw [Target.behind, hoffset, hunits, Int.natCast_add]

/-- A link of the inner assembly connects the same units in the flat one. -/
theorem linkConnections_part (hinner : inner.Sound) {link link' : Link}
    (hresolves : Resolves inner.schemes link)
    (hlink : Link.Redirects (fun p => { p with scheme := rename p.scheme })
      (fun p => { p with scheme := rename p.scheme }) link link') :
    linkConnections (scope flat.schemes .output) (scope flat.schemes .input) link'
      = connectionsBehind (offset outer.schemes name)
        <$> linkConnections (scope inner.schemes .output) (scope inner.schemes .input) link := by
  obtain ⟨s, t, hs, ht⟩ := hresolves
  have hsource := (resolve_eq_ok_iff hinner.names).1 hs
  have htarget := (resolve_eq_ok_iff hinner.names).1 ht
  have hs' := (resolve_eq_ok_iff h.names).2 (hlink.source.symm ▸ denotes_part h houter hsource)
  have ht' := (resolve_eq_ok_iff h.names).2 (hlink.target.symm ▸ denotes_part h houter htarget)
  simp only [linkConnections, hs, ht, hs', ht', hlink.wiring]
  exact connectionsBetween_renumbers (Target.renumbers_behind (hsource.nonneg hinner) _)
    (Target.renumbers_behind (htarget.nonneg hinner) _) link.wiring

/-! ### The outer assembly -/

variable (hinner : inner.Sound) (hpass : inner.Forwarding)
  {places : Keyed (Point × Turn)} {connections : List (List (Int × Int))}
  {ins outs : List Slot × Keyed (List Unresolved)} {d : Diagnostics}
  (hlinking : Linking inner places connections ins outs c d)
include hinner hpass hlinking

/-- **A path that is led past a slot reaches the same units.** -/
theorem exists_denotes_through {side : Side} {p : Path} {t : Target}
    (ht : Denotes outer.schemes side p t) :
    ∃ t', Denotes flat.schemes side (inner.through name rename side p) t'
      ∧ t'.sector.size = t.sector.size ∧ ∀ q, t'.reach q = t.reach q := by
  obtain ⟨hoffset, e, hmem, hslot, hsector⟩ := ht
  by_cases hname : p.scheme = name
  · -- the path names a slot that was passed on
    subst hname
    obtain rfl : e = c :=
      (Prod.mk.inj (List.inj_on_of_nodup_map houter.names hmem h.mem rfl)).2
    obtain ⟨made, hmade, hslots⟩ := hlinking.exists_made side
    rw [hslots] at hslot
    obtain ⟨plan, u, hplan, hu, hshows, hsectors⟩ :=
      hpass.exists_of_findSlot? hinner.names hmade hslot
    rw [through, if_pos rfl, hplan]
    refine exists_denotes_of_passed (denotes_part h houter hu) hshows.size (fun q => ?_) hsectors
      hsector
    rw [Target.reach_behind, ← hshows.getPoint, ← hoffset]
    rfl
  · refine ⟨t, ?_, rfl, fun _ => rfl⟩
    obtain ⟨hflat, hsame⟩ := h.other houter hlinking.length_units hname hmem
    rw [through, if_neg hname]
    exact ⟨by rw [hoffset, hsame], e, hflat, hslot, hsector⟩

/-- A link of the outer assembly that is led past slots connects the same units. -/
theorem linkConnections_through {link link' : Link}
    (hresolves : Resolves outer.schemes link)
    (hlink : Link.Redirects (inner.through name rename .output) (inner.through name rename .input)
      link link') :
    linkConnections (scope flat.schemes .output) (scope flat.schemes .input) link'
      = linkConnections (scope outer.schemes .output) (scope outer.schemes .input) link := by
  obtain ⟨s, t, hs, ht⟩ := hresolves
  obtain ⟨s', hsource, hsize, hreach⟩ := exists_denotes_through h houter hinner hpass hlinking
    ((resolve_eq_ok_iff houter.names).1 hs)
  obtain ⟨t', htarget, hsize', hreach'⟩ := exists_denotes_through h houter hinner hpass hlinking
    ((resolve_eq_ok_iff houter.names).1 ht)
  have hs' := (resolve_eq_ok_iff h.names).2 (hlink.source.symm ▸ hsource)
  have ht' := (resolve_eq_ok_iff h.names).2 (hlink.target.symm ▸ htarget)
  simp only [linkConnections, hs, ht, hs', ht', hlink.wiring]
  exact connectionsBetween_congr hsize hreach hsize' hreach' link.wiring

/-- **The links of the flat assembly** connect what the inner links connect, and then what the outer
links connect. -/
theorem mapM_linkConnections_flat
    (hresolves : ∀ link ∈ inner.links, Resolves inner.schemes link)
    (hresolves' : ∀ link ∈ outer.links, Resolves outer.schemes link) :
    flat.links.mapM (linkConnections (scope flat.schemes .output) (scope flat.schemes .input))
      = (fun later => connections.map (connectionsBehind (offset outer.schemes name)) ++ later)
        <$> outer.links.mapM
          (linkConnections (scope outer.schemes .output) (scope outer.schemes .input)) := by
  obtain ⟨own, others, hlinks, hown, hothers⟩ := h.links
  have hparts := (List.forall₂_and_left _ _).2 ⟨hresolves, hown⟩
  have hled := (List.forall₂_and_left _ _).2 ⟨hresolves', hothers⟩
  have hfirst : own.mapM (linkConnections (scope flat.schemes .output) (scope flat.schemes .input))
      = List.map (connectionsBehind (offset outer.schemes name)) <$> inner.links.mapM
          (linkConnections (scope inner.schemes .output) (scope inner.schemes .input)) :=
    Loop.mapM_map_result₂ (hparts.imp fun link link' hlink =>
      linkConnections_part h houter hinner hlink.1 hlink.2)
  have hsecond : others.mapM
        (linkConnections (scope flat.schemes .output) (scope flat.schemes .input))
      = outer.links.mapM
          (linkConnections (scope outer.schemes .output) (scope outer.schemes .input)) :=
    Loop.mapM_congr₂ (hled.imp fun link link' hlink =>
      linkConnections_through h houter hinner hpass hlinking hlink.1 hlink.2)
  rw [hlinks, List.mapM_append, hfirst, hsecond, hlinking.drawn]
  cases outer.links.mapM (linkConnections (scope outer.schemes .output)
    (scope outer.schemes .input)) with
  | error fault => rfl
  | ok later => rfl

end Nested

end Assembly

end Breadboard
