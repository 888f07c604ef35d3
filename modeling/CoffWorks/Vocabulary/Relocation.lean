import CoffWorks.Vocabulary.Machine

namespace CoffWorks

/-- What a linker does at the place of a relocation. The same code means different things on different machines. -/
structure RelocationType where
  code : UInt16
deriving DecidableEq, Inhabited

namespace RelocationType

def i386Names : Lexicon UInt16 :=
  [("absolute", 0x0), ("dir16", 0x1), ("dir32", 0x6), ("dir32nb", 0x7), ("rel16", 0x2),
   ("rel32", 0x14), ("secrel", 0xb), ("secrel7", 0xd), ("section", 0xa), ("seg12", 0x9),
   ("token", 0xc)]

def amd64Names : Lexicon UInt16 :=
  [("absolute", 0x0), ("addr32", 0x2), ("addr32nb", 0x3), ("addr64", 0x1), ("pair", 0xf),
   ("rel32", 0x4), ("rel32_1", 0x5), ("rel32_2", 0x6), ("rel32_3", 0x7), ("rel32_4", 0x8),
   ("rel32_5", 0x9), ("secrel", 0xb), ("secrel7", 0xc), ("section", 0xa), ("srel32", 0xe),
   ("sspan32", 0x10), ("token", 0xd)]

def armNames : Lexicon UInt16 :=
  [("absolute", 0x0), ("addr32", 0x1), ("addr32nb", 0x2), ("blx11", 0x9), ("blx23t", 0x15),
   ("blx24", 0x8), ("branch11", 0x4), ("branch20t", 0x12), ("branch24", 0x3),
   ("branch24t", 0x14), ("mov32a", 0x10), ("mov32t", 0x11), ("secrel", 0xf), ("section", 0xe),
   ("token", 0x5)]

def arm64Names : Lexicon UInt16 :=
  [("absolute", 0x0), ("addr32", 0x1), ("addr32nb", 0x2), ("addr64", 0xe), ("branch26", 0x3),
   ("pagebase_rel21", 0x4), ("pageoffset_12a", 0x6), ("pageoffset_12l", 0x7), ("rel21", 0x5),
   ("secrel", 0x8), ("secrel_high12a", 0xa), ("secrel_low12a", 0x9), ("secrel_low12l", 0xb),
   ("section", 0xd), ("token", 0xc)]

def i386Dir32 : RelocationType := ⟨0x6⟩
def i386Rel32 : RelocationType := ⟨0x14⟩
def amd64Addr32 : RelocationType := ⟨0x2⟩
def amd64Rel32 : RelocationType := ⟨0x4⟩

/-- The names for a machine, none for most. The 32-bit ARM machines share theirs. -/
def names (m : Machine) : Lexicon UInt16 :=
  if m = .i386 then i386Names
  else if m = .amd64 then amd64Names
  else if m = .arm ∨ m = .thumb ∨ m = .armnt then armNames
  else if m = .arm64 then arm64Names
  else []

def label (m : Machine) (t : RelocationType) : Bytes :=
  ((names m).name? t.code).getD ("0x" ++ Text.hex 4 t.code.toNat)

def parse (m : Machine) (text : Bytes) : Attempt RelocationType :=
  match (names m).read? 16 UInt16.ofNat (Text.keyword text) with
  | some code => .ok ⟨code⟩
  | none => .error (.plain ("unknown relocation type " ++ Text.quote text ++ " for " ++ m.label))

end RelocationType

end CoffWorks
