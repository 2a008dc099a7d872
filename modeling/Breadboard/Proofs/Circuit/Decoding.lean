import Breadboard.Proofs.Circuit.Records

/-!
**Circuits read back from their documents.**

The place of a unit is written with a shift that depends on its turn, and the turn by two signed
axis numbers.  The two numbers determine the turn, as the third axis is the vector product of the
other ones, and with the turn the shift is known and the place is found.  The identifier of a record
tells the three kinds of parts apart, and each kind writes down everything else that it is made of.

Main definitions:

* `Turn.anchorShift` — from the first cell of a unit to the corner by which it is anchored;
* `Turn.ofAxes?` — the turn with given axis numbers;
* `Part.ofRecord?` — the part that a record is about;
* `Imprint` — what a document says about a unit;
* `Imprint.ofDocument?` — **the decoder**;
* `Circuit.Catalogued` — circuits whose blocks are of the types in the catalog.

Main results:

* `Turn.wire_eq` — **the table agrees with the turned axes**;
* `Turn.ofAxes?_wire` — the axis numbers determine the turn;
* `Part.ofRecord?_record` — a part is found in its record;
* `Circuit.document_lossless` — **a circuit is found in its document**.
-/

set_option autoImplicit false
set_option relaxedAutoImplicit false

namespace Breadboard

/-! ### Turns -/

namespace Heading

/-- The step to the anchor for a part one of whose axes points along a heading. -/
def anchorShift : Heading → Point
  | .negX => ⟨1, 0, 0⟩
  | .posY => ⟨0, -1, 0⟩
  | .negZ => ⟨0, 0, 1⟩
  | .posX | .negY | .posZ => .origin

/-- The heading with the given signed axis number. -/
def ofNumber? (n : Int) : Option Heading := all.find? fun h => h.number == n

end Heading

namespace Turn

/-- The step from the first cell of a turned unit to the corner by which it is anchored. -/
def anchorShift (t : Turn) : Point :=
  t.x.anchorShift + t.y.opposite.anchorShift + t.z.anchorShift

/-- **The entry that is found for a turn has its axes**, and its corner is reached by a step for
each of the turned axes. -/
theorem wire_eq (t : Turn) : t.wire = ⟨t.x.number, t.y.opposite.number, t.anchorShift⟩ := by
  obtain ⟨x, y, z, e⟩ := t
  cases x <;> cases y <;> cases e <;> rfl

/-- The turn that sends the `x` axis and the reversed `y` axis to the axes with given numbers. -/
def ofAxes? (first second : Int) : Option Turn := do
  let x ← Heading.ofNumber? first
  let y := (← Heading.ofNumber? second).opposite
  match h : x.cross y with
  | some z => some ⟨x, y, z, h⟩
  | none => none

/-- **The axis numbers determine the turn.** -/
theorem ofAxes?_wire (t : Turn) : ofAxes? t.wire.xaxis t.wire.zaxis = some t := by
  rw [wire_eq]
  obtain ⟨x, y, z, e⟩ := t
  cases x <;> cases y <;> cases e <;> rfl

end Turn

/-! ### Parts -/

/-- The point with the coordinates that a document holds. -/
def Point.ofRecord (v : Json) : Point := ⟨v.wholeAt "x", v.wholeAt "y", v.wholeAt "z"⟩

namespace BlockType

/-- The type with the given identifier. -/
def ofUuid? (uuid : String) : Option BlockType := catalog.find? fun b => b.uuid == uuid

/-- No two types of the catalog have the same identifier. -/
theorem ofUuid?_uuid {type : BlockType} (h : type ∈ catalog) : ofUuid? type.uuid = some type := by
  revert type
  decide +kernel

/-- No type of the catalog has the identifier of gates or of timers. -/
theorem uuid_ne {type : BlockType} (h : type ∈ catalog) :
    type.uuid ≠ gateUuid ∧ type.uuid ≠ timerUuid := by
  revert type
  decide +kernel

end BlockType

namespace Part

/-- A block is of a type in the catalog; gates and timers have no type. -/
def Catalogued : Part → Prop
  | gate _ => True
  | timer _ => True
  | block type _ _ => type ∈ BlockType.catalog

/-- The gate of the mode with the given number. -/
def gateOfNumber? (n : Int) : Option Part :=
  (GateMode.all.find? fun m => (m.number : Int) == n).map gate

/-- The timer of whole seconds and fewer ticks than a second has. -/
def timerOf? (seconds ticks : Int) : Option Part :=
  if 0 ≤ ticks ∧ ticks < ticksPerSecond then (timer? (seconds * ticksPerSecond + ticks)).toOption
  else none

/-- The part that a record is about. -/
def ofRecord? (record : Json) : Option Part :=
  let controller := record.get "controller"
  if record.textAt "shapeId" = gateUuid then gateOfNumber? (controller.wholeAt "mode")
  else if record.textAt "shapeId" = timerUuid then
    timerOf? (controller.wholeAt "seconds") (controller.wholeAt "ticks")
  else do
    let type ← BlockType.ofUuid? (record.textAt "shapeId")
    (block? type (Point.ofRecord (record.get "bounds"))).toOption

theorem gateOfNumber?_number (m : GateMode) : gateOfNumber? m.number = some (gate m) := by
  cases m <;> rfl

/-- A delay is found from its whole seconds and the ticks beyond them. -/
theorem timerOf?_seconds (ticks : Nat) :
    timerOf? (seconds ticks) (restTicks ticks) = some (timer ticks) := by
  have hper : ticksPerSecond = 40 := rfl
  have hrest : restTicks ticks = ticks % 40 := rfl
  have htotal : (seconds ticks : Int) * ticksPerSecond + restTicks ticks = ticks := by
    have hseconds : seconds ticks = ticks / 40 := rfl
    rw [hper, hseconds, hrest]
    omega
  rw [timerOf?, if_pos (by rw [hper, hrest]; omega), htotal, timer?, if_neg (by omega),
    Int.toNat_natCast]
  rfl

variable {p : Part} (pos : Point) (turn : Turn) (wires : List Int) (id : Int)
  (color : Option String)

theorem textAt_shapeId_record : (p.record pos turn wires id color).textAt "shapeId" = p.uuid := rfl

/-- **A part is found in its record.** -/
theorem ofRecord?_record (hp : p.Catalogued) :
    ofRecord? (p.record pos turn wires id color) = some p := by
  rw [ofRecord?, textAt_shapeId_record]
  cases p with
  | gate mode => exact gateOfNumber?_number mode
  | timer ticks => exact timerOf?_seconds ticks
  | block type size solid =>
      obtain ⟨hgate, htimer⟩ := BlockType.uuid_ne hp
      have hbounds : Point.ofRecord ((record (block type size solid) pos turn wires id color).get
          "bounds") = size := rfl
      rw [uuid, if_neg hgate, if_neg htimer, BlockType.ofUuid?_uuid hp, hbounds]
      simp [block?, solid, Except.toOption]

end Part

/-! ### Units -/

/-- What a document says about a unit. -/
structure Imprint where
  pos : Point
  turn : Turn
  part : Part
  /-- The receivers of a gate or a timer; of a block there is no list. -/
  wires : Option (List Int)
  color : String
  deriving DecidableEq

namespace Imprint

/-- What a record says about a unit. -/
def ofRecord? (record : Json) : Option Imprint := do
  let turn ← Turn.ofAxes? (record.wholeAt "xaxis") (record.wholeAt "zaxis")
  let part ← Part.ofRecord? record
  pure ⟨Point.ofRecord (record.get "pos") - turn.wire.shift, turn, part,
    if part.isLogic then some record.listed else none, record.textAt "color"⟩

/-- **What a document says about the units**, in their order. -/
def ofDocument? (document : Json) : Option (List Imprint) := document.records.mapM ofRecord?

end Imprint

/-- What there is to say about a unit to which the slots give a colour. -/
def Element.imprint (e : Element) (painted : Option String) : Imprint :=
  ⟨e.pos, e.turn, e.part, if e.part.isLogic then some e.wires else none,
    (e.color.orElse fun _ => painted).getD e.part.defaultColor⟩

theorem Point.add_sub_cancel_right (p q : Point) : p + q - q = p := by
  ext <;> simp

/-- **A unit is found in its record.** -/
theorem Imprint.ofRecord?_record {e : Element} (he : e.part.Catalogued) (id : Int)
    (painted : Option String) :
    ofRecord? (e.record e.pos e.turn id painted) = some (e.imprint painted) := by
  have hturn : Turn.ofAxes? ((e.record e.pos e.turn id painted).wholeAt "xaxis")
      ((e.record e.pos e.turn id painted).wholeAt "zaxis") = some e.turn :=
    Turn.ofAxes?_wire e.turn
  have hpart : Part.ofRecord? (e.record e.pos e.turn id painted) = some e.part :=
    Part.ofRecord?_record _ _ _ _ _ he
  have hpos : Point.ofRecord ((e.record e.pos e.turn id painted).get "pos") - e.turn.wire.shift
      = e.pos := Point.add_sub_cancel_right _ _
  have hcolor : (e.record e.pos e.turn id painted).textAt "color"
      = (e.color.orElse fun _ => painted).getD e.part.defaultColor := rfl
  have hwires : (if e.part.isLogic then some (e.record e.pos e.turn id painted).listed else none)
      = if e.part.isLogic then some e.wires else none := by
    split
    · rename_i hlogic
      exact congrArg some (e.part.listed_record _ _ _ _ _ hlogic)
    · rfl
  rw [ofRecord?, hturn, hpart]
  simp only [Option.bind_eq_bind, Option.bind_some, hpos, hwires, hcolor, Option.pure_def]
  rfl

/-! ### Circuits -/

namespace Circuit

/-- Every block is of a type in the catalog. -/
def Catalogued (c : Circuit) : Prop := ∀ e ∈ c.units, e.part.Catalogued

variable {c : Circuit} {palette : Palette}

/-- **The units are found in the document**, with the colours that they are written in. -/
theorem ofDocument?_blueprint (hc : c.Catalogued) {b : Blueprint}
    (h : c.blueprint palette = .ok b) :
    ∃ strokes, c.strokes palette = .ok strokes ∧ Imprint.ofDocument? b.document
      = some (c.units.zipIdx.map fun (e, i) => e.imprint (lastStroke? strokes i)) := by
  obtain ⟨records, hrecords, hdocument⟩ := records_document h
  obtain ⟨strokes, hstrokes, hrecords⟩ := Fault.bind_eq_ok_iff.1 hrecords
  cases hrecords
  refine ⟨strokes, hstrokes, ?_⟩
  rw [Imprint.ofDocument?, hdocument, List.mapM_map]
  exact Loop.mapM_eq_some_map fun u hu =>
    Imprint.ofRecord?_record (hc u.1 (List.fst_mem_of_mem_zipIdx hu)) _ _

/-- Where a unit stands, how it is turned and what it is. -/
def body (e : Element) : Point × Turn × Part := (e.pos, e.turn, e.part)

/-- What is found in a document determines the bodies of the units. -/
theorem map_body_eq (strokes : List Stroke) :
    (c.units.zipIdx.map fun (e, i) => e.imprint (lastStroke? strokes i)).map
        (fun found => (found.pos, found.turn, found.part))
      = c.units.map body := by
  rw [List.map_map]
  refine List.ext_getElem? fun i => ?_
  rw [List.getElem?_map, List.getElem?_map, List.getElem?_zipIdx, Option.map_map]
  rfl

/-- **A circuit is found in its document.**  A circuit is written if there is a colour for every
point of its slots.  From the document the decoder finds every unit in its order: its place, its
turn and its part, the receivers of gates and timers in their order and as often as they are
repeated, and the colour that it is written in, which is its own, else that of the slots, else that
of its part.  So two circuits with the same document have the same bodies. -/
theorem document_lossless (c : Circuit) (hc : c.Catalogued) (palette : Palette) :
    (c.SlotsInRange → (∀ number p, ∃ s, palette.input number p = .ok s) →
        (∀ number p, ∃ s, palette.output number p = .ok s) → ∃ b, c.blueprint palette = .ok b)
      ∧ ∀ b, c.blueprint palette = .ok b →
        (∃ strokes, c.strokes palette = .ok strokes ∧ Imprint.ofDocument? b.document
          = some (c.units.zipIdx.map fun (e, i) => e.imprint (lastStroke? strokes i)))
        ∧ ∀ (other : Circuit) (colours : Palette) (b' : Blueprint), other.Catalogued →
          other.blueprint colours = .ok b' → b'.document = b.document →
          other.units.map body = c.units.map body := by
  refine ⟨exists_blueprint, fun b hb => ?_⟩
  obtain ⟨strokes, hstrokes, hfound⟩ := ofDocument?_blueprint hc hb
  refine ⟨⟨strokes, hstrokes, hfound⟩, ?_⟩
  intro other colours b' hother hb' hsame
  obtain ⟨strokes', _, hfound'⟩ := ofDocument?_blueprint hother hb'
  rw [hsame, hfound] at hfound'
  rw [← map_body_eq strokes', ← map_body_eq strokes, Option.some.inj hfound']

/-- A turned gate that sends twice to the same timer, the timer, which an input addresses, and a
coloured pane of glass. -/
def stained : Circuit where
  units := [⟨⟨.gate .xnor, [1, 0, 1], none, false⟩, ⟨-3, 0, 5⟩, .quarterX⟩,
    ⟨⟨.timer 81, [], none, true⟩, ⟨0, 7, 0⟩, .quarterZ⟩,
    ⟨⟨.block ⟨"GLASS", "5f41af56-df4c-4837-9b3c-10781335757f", "e4f8ff"⟩ ⟨2, 3, 1⟩ rfl, [],
      some "a0b0c0", false⟩, ⟨4, 4, 4⟩, .quarterY⟩]
  inputs := [.point "_" defaultKind 1]
  outputs := []
  bounds := ⟨9, 8, 6⟩

/-- The three units are found in the document. -/
theorem document_lossless_stained :
    ∃ b, stained.Catalogued
      ∧ stained.blueprint ⟨fun _ _ => .ok "ffffff", fun _ _ => .ok "000000"⟩ = .ok b
      ∧ Imprint.ofDocument? b.document
        = some [⟨⟨-3, 0, 5⟩, .quarterX, .gate .xnor, some [1, 0, 1], "df7f00"⟩,
          ⟨⟨0, 7, 0⟩, .quarterZ, .timer 81, some [], "ffffff"⟩,
          ⟨⟨4, 4, 4⟩, .quarterY,
            .block ⟨"GLASS", "5f41af56-df4c-4837-9b3c-10781335757f", "e4f8ff"⟩ ⟨2, 3, 1⟩ rfl, none,
            "a0b0c0"⟩] := by
  have hcatalogued : stained.Catalogued := by
    intro e he
    simp only [stained, List.mem_cons, List.not_mem_nil, or_false] at he
    rcases he with rfl | rfl | rfl
    · trivial
    · trivial
    · show _ ∈ BlockType.catalog
      decide
  obtain ⟨hwritten, hfound⟩ := document_lossless stained hcatalogued
    ⟨fun _ _ => .ok "ffffff", fun _ _ => .ok "000000"⟩
  have hslots : stained.SlotsInRange := by
    intro side s hs
    rw [← Slot.dangling?_eq_none_iff_inRange]
    cases side with
    | input => obtain rfl := List.mem_singleton.1 hs; decide
    | output => cases hs
  obtain ⟨b, hb⟩ := hwritten hslots (fun _ _ => ⟨_, rfl⟩) fun _ _ => ⟨_, rfl⟩
  obtain ⟨⟨strokes, hstrokes, hunits⟩, _⟩ := hfound b hb
  cases hstrokes
  exact ⟨b, hcatalogued, hb, hunits⟩

end Circuit

end Breadboard
