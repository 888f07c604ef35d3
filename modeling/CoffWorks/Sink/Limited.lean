import CoffWorks.Sink.Staging

namespace CoffWorks

/-- Takes `limit` bytes in all, then what fits of a write. -/
structure LimitedWriter where
  data : Bytes := .empty
  limit : Option Int64 := none

namespace LimitedWriter

def write : LimitedWriter → Bytes → Stored LimitedWriter
  | ⟨data, none⟩, p => { out := ⟨data ++ p, none⟩, count := p.size }
  | ⟨data, some limit⟩, p =>
    let room := (limit.toInt - data.size).toNat
    if room < p.size then
      { out := ⟨data ++ p.take room, some limit⟩, count := room, failure := some .diskFull }
    else { out := ⟨data ++ p, some limit⟩, count := p.size }

instance : Writer LimitedWriter := ⟨write⟩

end LimitedWriter

/-- A staging sink that refuses a write which would take it beyond `limit`, and its patch number
`failingPatch`, counted from one. -/
structure GuardedStaging where
  staging : Staging := {}
  limit : Option Int64 := none
  failingPatch : Option Nat := none
  patches : Nat := 0

namespace GuardedStaging

def write : GuardedStaging → Bytes → Stored GuardedStaging
  | ⟨staging, limit, failingPatch, patches⟩, p =>
    if limit.any fun l => (staging.data.size : Int) + p.size > l.toInt then
      { out := ⟨staging, limit, failingPatch, patches⟩, count := 0, failure := some .diskFull }
    else { out := ⟨staging.write p, limit, failingPatch, patches⟩, count := p.size }

def patchAt : GuardedStaging → Bytes → Int64 → GuardedStaging × Option Failure
  | ⟨staging, limit, failingPatch, patches⟩, p, off =>
    if failingPatch = some (patches + 1) then
      (⟨staging, limit, failingPatch, patches + 1⟩, some (.plain "patch refused"))
    else
      let (staging, failure) := staging.patchAt p off
      (⟨staging, limit, failingPatch, patches + 1⟩, failure)

instance : Sink GuardedStaging where
  write := write
  offset g := g.staging.data.size
  patchAt := patchAt

end GuardedStaging

end CoffWorks
