/-!
**The catalog of block types.**

Main definitions:

* `BlockType` — a type of building block, by its name, identifier and default colour;
* `BlockType.catalog` — the types that exist, in order;
* `BlockType.ofName?` — the type of a name.
-/

set_option autoImplicit false
set_option relaxedAutoImplicit false

namespace Breadboard

/-- A type of building block. -/
structure BlockType where
  name : String
  uuid : String
  color : String
  deriving DecidableEq, Inhabited

namespace BlockType

def catalog : List BlockType :=
  [⟨"CONCRETE_1", "a6c6ce30-dd47-4587-b475-085d55c6a3b4", "8d8f89"⟩,
   ⟨"WOOD_1", "df953d9c-234f-4ac2-af5e-f0490b223e71", "9b683a"⟩,
   ⟨"METAL_1", "8aedf6c2-94e1-4506-89d4-a0227c552f1e", "675f51"⟩,
   ⟨"BARRIER", "09ca2713-28ee-4119-9622-e85490034758", "ce9e0c"⟩,
   ⟨"TILE", "8ca49bff-eeef-4b43-abd0-b527a567f1b7", "bfdfed"⟩,
   ⟨"BRICK", "0603b36e-0bdb-4828-b90c-ff19abcdfe34", "af967b"⟩,
   ⟨"GLASS", "5f41af56-df4c-4837-9b3c-10781335757f", "e4f8ff"⟩,
   ⟨"GLASS_TILE", "749f69e0-56c9-488c-adf6-66c58531818f", "c2f9ff"⟩,
   ⟨"PATH_LIGHT", "073f92af-f37e-4aff-96b3-d66284d5081c", "727272"⟩,
   ⟨"SPACESHIP", "027bd4ec-b16d-47d2-8756-e18dc2af3eb6", "820a0a"⟩,
   ⟨"CARDBOARD", "f0cba95b-2dc4-4492-8fd9-36546a4cb5aa", "a48052"⟩,
   ⟨"SCRAP_WOOD", "1fc74a28-addb-451a-878d-c3c605d63811", "cd9d71"⟩,
   ⟨"WOOD_2", "1897ee42-0291-43e4-9645-8c5a5d310398", "dc9153"⟩,
   ⟨"WOOD_3", "061b5d4b-0a6a-4212-b0ae-9e9681f1cbfb", "f2ad74"⟩,
   ⟨"SCRAP_METAL", "1f7ac0bb-ad45-4246-9817-59bdf7f7ab39", "df6226"⟩,
   ⟨"METAL_2", "1016cafc-9f6b-40c9-8713-9019d399783f", "869499"⟩,
   ⟨"METAL_3", "c0dfdea5-a39d-433a-b94a-299345a5df46", "88a5ac"⟩,
   ⟨"SCRAP_STONE", "30a2288b-e88e-4a92-a916-1edbfc2b2dac", "848484"⟩,
   ⟨"CONCRETE_2", "ff234e42-5da4-43cc-8893-940547c97882", "8d8f89"⟩,
   ⟨"CONCRETE_3", "e281599c-2343-4c86-886e-b2c1444e8810", "c9d7dc"⟩,
   ⟨"CRACKED_CONCRETE", "f5ceb7e3-5576-41d2-82d2-29860cf6e20e", "8d8f89"⟩,
   ⟨"CONCRETE_SLAB", "cd0eff89-b693-40ee-bd4c-3500b23df44e", "af967b"⟩,
   ⟨"RUSTED_METAL", "220b201e-aa40-4995-96c8-e6007af160de", "738192"⟩,
   ⟨"EXTRUDED_METAL", "25a5ffe7-11b1-4d3e-8d7a-48129cbaf05e", "858795"⟩,
   ⟨"BUBBLE_PLASTIC", "f406bf6e-9fd5-4aa0-97c1-0b3c2118198e", "9acfd2"⟩,
   ⟨"PLASTIC", "628b2d61-5ceb-43e9-8334-a4135566df7a", "0b9ade"⟩,
   ⟨"INSULATION", "9be6047c-3d44-44db-b4b9-9bcf8a9aab20", "fff063"⟩,
   ⟨"PLASTER", "b145d9ae-4966-4af6-9497-8fca33f9aee3", "979797"⟩,
   ⟨"CARPET", "febce8a6-6c05-4e5d-803b-dfa930286944", "368085"⟩,
   ⟨"PAINTED_WALL", "e981c337-1c8a-449c-8602-1dd990cbba3a", "eeeeee"⟩,
   ⟨"NET", "4aa2a6f0-65a4-42e3-bf96-7dec62570e0b", "435359"⟩,
   ⟨"SOLID_NET", "3d0b7a6e-5b40-474c-bbaf-efaa54890e6a", "888888"⟩,
   ⟨"PUNCHED_STEEL", "ea6864db-bb4f-4a89-b9ec-977849b6713a", "888888"⟩,
   ⟨"STRIPED_NET", "a479066d-4b03-46b5-8437-e99fec3f43ee", "888888"⟩,
   ⟨"SQUARE_MESH", "b4fa180c-2111-4339-b6fd-aed900b57093", "c36512"⟩,
   ⟨"RESTROOM", "920b40c8-6dfc-42e7-84e1-d7e7e73128f6", "607b79"⟩,
   ⟨"DIAMOND_PLATE", "f7d4bfed-1093-49b9-be32-394c872a1ef4", "43494d"⟩,
   ⟨"ALUMINIUM", "3e3242e4-1791-4f70-8d1d-0ae9ba3ee94c", "727272"⟩,
   ⟨"WORN_METAL", "d740a27d-cc0f-4866-9e07-6a5c516ad719", "66837c"⟩,
   ⟨"SPACESHIP_FLOOR", "4ad97d49-c8a5-47f3-ace3-d56ba3affe50", "dadada"⟩,
   ⟨"SAND", "c56700d9-bbe5-4b17-95ed-cef05bd8be1b", "c69146"⟩,
   ⟨"ARMORED_GLASS", "b5ee5539-75a2-4fef-873b-ef7c9398b3f5", "3abfb1"⟩]

def ofName? (name : String) : Option BlockType := catalog.find? fun b => b.name == name

end BlockType

end Breadboard
