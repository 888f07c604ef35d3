import CoffWorks.Vocabulary.Lexicon

namespace CoffWorks

/-- The target machine of an object file. -/
structure Machine where
  code : UInt16
deriving DecidableEq, Inhabited

namespace Machine

def i386 : Machine := ⟨0x14c⟩
def amd64 : Machine := ⟨0x8664⟩
def arm : Machine := ⟨0x1c0⟩
def thumb : Machine := ⟨0x1c2⟩
def armnt : Machine := ⟨0x1c4⟩
def arm64 : Machine := ⟨0xaa64⟩

def names : Lexicon UInt16 :=
  [("am33", 0x1d3), ("amd64", 0x8664), ("arm", 0x1c0), ("arm64", 0xaa64), ("armnt", 0x1c4),
   ("ebc", 0xebc), ("i386", 0x14c), ("ia64", 0x200), ("m32r", 0x9041), ("mips16", 0x266),
   ("mipsfpu", 0x366), ("mipsfpu16", 0x466), ("powerpc", 0x1f0), ("powerpcfp", 0x1f1),
   ("r4000", 0x166), ("sh3", 0x1a2), ("sh3dsp", 0x1a3), ("sh4", 0x1a6), ("sh5", 0x1a8),
   ("thumb", 0x1c2), ("unknown", 0x0), ("wcemipsv2", 0x169)]

/-- Other spellings that are understood. -/
def aliases : Lexicon UInt16 :=
  [("386", 0x14c), ("aarch64", 0xaa64), ("x64", 0x8664), ("x86", 0x14c), ("x86-64", 0x8664),
   ("x86_64", 0x8664)]

def name? (m : Machine) : Option Bytes := names.name? m.code

def label (m : Machine) : Bytes :=
  m.name?.getD ("machine(0x" ++ Text.hex 4 m.code.toNat ++ ")")

def parse (text : Bytes) : Attempt Machine :=
  knownOr "machine" text
    ((Lexicon.read? (names ++ aliases) 16 UInt16.ofNat (Text.keyword text)).map Machine.mk)

end Machine

end CoffWorks
