import CoffWorks.Vocabulary.Lexicon

namespace CoffWorks

/-- The role of a symbol. -/
structure StorageClass where
  code : UInt8
deriving DecidableEq, Inhabited

namespace StorageClass

def external : StorageClass := ⟨2⟩
def static : StorageClass := ⟨3⟩
def file : StorageClass := ⟨103⟩

def names : Lexicon UInt8 :=
  [("argument", 9), ("automatic", 1), ("bit_field", 18), ("block", 100), ("clr_token", 107),
   ("end_of_function", 255), ("end_of_struct", 102), ("enum_tag", 15), ("external", 2),
   ("external_def", 5), ("file", 103), ("function", 101), ("label", 6),
   ("member_of_enum", 16), ("member_of_struct", 8), ("member_of_union", 11), ("null", 0),
   ("register", 4), ("register_param", 17), ("section", 104), ("static", 3),
   ("struct_tag", 10), ("type_definition", 13), ("undefined_label", 7),
   ("undefined_static", 14), ("union_tag", 12), ("weak_external", 105)]

def name? (c : StorageClass) : Option Bytes := names.name? c.code

def label (c : StorageClass) : Bytes :=
  c.name?.getD ("class(" ++ Text.decimal c.code.toNat ++ ")")

def parse (text : Bytes) : Attempt StorageClass :=
  knownOr "storage class" text ((names.read? 8 UInt8.ofNat (Text.keyword text)).map StorageClass.mk)

end StorageClass

/-- The base of a symbol's type. -/
structure BaseType where
  code : UInt8
deriving DecidableEq, Inhabited

namespace BaseType

def names : Lexicon UInt8 :=
  [("byte", 12), ("char", 2), ("double", 7), ("dword", 15), ("enum", 10), ("float", 6),
   ("int", 4), ("long", 5), ("moe", 11), ("null", 0), ("short", 3), ("struct", 8),
   ("uint", 14), ("union", 9), ("void", 1), ("word", 13)]

def label (t : BaseType) : Bytes := (names.name? t.code).getD (Text.decimal t.code.toNat)

def parse (text : Bytes) : Attempt BaseType :=
  knownOr "base type" text ((names.read? 8 UInt8.ofNat (Text.keyword text)).map BaseType.mk)

end BaseType

/-- What is made of the base: a pointer, a function, an array. -/
structure ComplexType where
  code : UInt8
deriving DecidableEq, Inhabited

namespace ComplexType

def names : Lexicon UInt8 :=
  [("array", 3), ("function", 2), ("null", 0), ("pointer", 1)]

def label (t : ComplexType) : Bytes := (names.name? t.code).getD (Text.decimal t.code.toNat)

def parse (text : Bytes) : Attempt ComplexType :=
  knownOr "complex type" text ((names.read? 8 UInt8.ofNat (Text.keyword text)).map ComplexType.mk)

end ComplexType

/-- The type of a symbol. -/
structure SymbolType where
  base : BaseType := ⟨0⟩
  complex : ComplexType := ⟨0⟩
deriving DecidableEq, Inhabited

def SymbolType.label (t : SymbolType) : Bytes := t.base.label ++ "/" ++ t.complex.label

end CoffWorks
