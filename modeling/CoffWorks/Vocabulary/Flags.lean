import CoffWorks.Vocabulary.Lexicon

namespace CoffWorks

/-- The flags of a file. -/
structure FileFlags where
  bits : UInt16
deriving DecidableEq, Inhabited

namespace FileFlags

def table : Lexicon UInt16 :=
  [("32bit_machine", 0x100), ("aggressive_ws_trim", 0x10), ("bytes_reversed_hi", 0x8000),
   ("bytes_reversed_lo", 0x80), ("debug_stripped", 0x200), ("dll", 0x2000),
   ("executable_image", 0x2), ("large_address_aware", 0x20), ("line_nums_stripped", 0x4),
   ("local_syms_stripped", 0x8), ("net_run_from_swap", 0x800), ("relocs_stripped", 0x1),
   ("removable_run_from_swap", 0x400), ("system", 0x1000), ("up_system_only", 0x4000)]

/-- The names of the flags set in `f`, sorted. -/
def names (f : FileFlags) : List Bytes :=
  (table.filter fun e => f.bits &&& e.2 = e.2).map fun e => e.1.toUTF8

def parse (text : Bytes) : Attempt FileFlags :=
  knownOr "file flag" text ((table.read? 16 UInt16.ofNat (Text.keyword text)).map FileFlags.mk)

instance : OrOp FileFlags := ⟨fun a b => ⟨a.bits ||| b.bits⟩⟩

end FileFlags

/-- The flags of a section. Four of the bits hold its alignment instead. -/
structure SectionFlags where
  bits : UInt32
deriving DecidableEq, Inhabited

namespace SectionFlags

def code : SectionFlags := ⟨0x20⟩
def initializedData : SectionFlags := ⟨0x40⟩
def uninitializedData : SectionFlags := ⟨0x80⟩
def execute : SectionFlags := ⟨0x20000000⟩
def read : SectionFlags := ⟨0x40000000⟩
def write : SectionFlags := ⟨0x80000000⟩

instance : OrOp SectionFlags := ⟨fun a b => ⟨a.bits ||| b.bits⟩⟩

def table : Lexicon UInt32 :=
  [("cnt_code", 0x20), ("cnt_initialized_data", 0x40), ("cnt_uninitialized_data", 0x80),
   ("gprel", 0x8000), ("lnk_comdat", 0x1000), ("lnk_info", 0x200),
   ("lnk_nreloc_ovfl", 0x1000000), ("lnk_other", 0x100), ("lnk_remove", 0x800),
   ("mem_discardable", 0x2000000), ("mem_execute", 0x20000000), ("mem_locked", 0x40000),
   ("mem_not_cached", 0x4000000), ("mem_not_paged", 0x8000000), ("mem_preload", 0x80000),
   ("mem_purgeable", 0x20000), ("mem_read", 0x40000000), ("mem_shared", 0x10000000),
   ("mem_write", 0x80000000), ("type_no_pad", 0x8)]

def alignmentMask : UInt32 := 0x00f00000

/-- The flag for an alignment to `2 ^ k` bytes, `k` below 14. -/
def alignedTo (k : Nat) : SectionFlags := ⟨UInt32.ofNat (k + 1) <<< 20⟩

/-- The flag for an alignment to `n` bytes, no flag if there is none for `n`. -/
def alignFlag (n : UInt32) : SectionFlags :=
  match (List.range 14).find? (fun k => n.toNat = 1 <<< k) with
  | some k => alignedTo k
  | none => ⟨0⟩

/-- The alignment in bytes, 0 if there is none. -/
def alignment (f : SectionFlags) : Nat :=
  let v := ((f.bits &&& alignmentMask) >>> 20).toNat
  if v = 0 ∨ v > 14 then 0 else 1 <<< (v - 1)

/-- The names of the flags set in `f`, sorted, and the alignment last. -/
def names (f : SectionFlags) : List Bytes :=
  let rest := f.bits &&& ~~~alignmentMask
  (table.filter fun e => rest &&& e.2 = e.2).map (fun e => e.1.toUTF8)
    ++ if f.alignment = 0 then [] else ["align_" ++ Text.decimal f.alignment]

def parse (text : Bytes) : Attempt SectionFlags :=
  let key := Text.keyword text
  match table.code? key with
  | some bits => .ok ⟨bits⟩
  | none =>
    if key.startsWith "align_" then
      match (Text.decimal? 32 (key.drop 6)).map (fun n => alignFlag (UInt32.ofNat n)) with
      | some f => if f.bits = 0 then badAlignment else .ok f
      | none => badAlignment
    else knownOr "section flag" text ((Text.literal? 32 key).map fun v => ⟨UInt32.ofNat v⟩)
where
  badAlignment : Attempt SectionFlags :=
    .error (.plain ("invalid section alignment " ++ Text.quote text))

end SectionFlags

end CoffWorks
