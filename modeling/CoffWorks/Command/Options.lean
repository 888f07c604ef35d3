import CoffWorks.Object.Code

namespace CoffWorks.Command

/-- A label: a name, then an offset and words in any order, all with colons between. -/
def readLabel (text : Bytes) : Attempt CodeLabel :=
  match text.splitOn 58 with
  | [] => .error (.plain ("symbol " ++ Text.quote text ++ " has no name"))
  | name :: parts =>
    if name.isEmpty then .error (.plain ("symbol " ++ Text.quote text ++ " has no name"))
    else parts.foldlM addPart { name }
where
  addPart (l : CodeLabel) (part : Bytes) : Attempt CodeLabel :=
    if part.isEmpty then .ok l
    else if part = "public" then .ok { l with isPublic := true }
    else if part = "external" then .ok { l with isExternal := true }
    else
      match Text.literal? 32 part with
      | some n => .ok { l with offset := UInt32.ofNat n }
      | none => .error (.plain ("symbol " ++ Text.quote text ++ ": invalid offset " ++ Text.quote part))

/-- A fixup: a symbol, an offset and perhaps a mode, with colons between. -/
def readFixup (text : Bytes) : Attempt CodeFixup :=
  match text.splitOn 58 with
  | [symbol, offset] => read symbol offset none
  | [symbol, offset, mode] => read symbol offset (some mode)
  | _ => .error unclear
where
  complaint (what : Bytes) : Failure := .plain ("relocation " ++ Text.quote text ++ ": " ++ what)
  unclear : Failure := complaint "want symbol:offset[:rel]"
  read (symbol offset : Bytes) (mode : Option Bytes) : Attempt CodeFixup :=
    if symbol.isEmpty then .error unclear
    else
      match Text.literal? 32 offset with
      | none => .error (complaint ("invalid offset " ++ Text.quote offset))
      | some n =>
        let fixup : CodeFixup := { symbol, offset := UInt32.ofNat n }
        match mode with
        | none => .ok fixup
        | some mode =>
          if mode = "rel" then .ok { fixup with isRelative := true }
          else if mode = "abs" then .ok fixup
          else .error (complaint "mode must be rel or abs")

/-- The labels with one more. -/
def addLabel (labels : List CodeLabel) (text : Bytes) : Attempt (List CodeLabel) := do
  return labels ++ [← readLabel text]

/-- The fixups with one more. -/
def addFixup (fixups : List CodeFixup) (text : Bytes) : Attempt (List CodeFixup) := do
  return fixups ++ [← readFixup text]

def labelNames (labels : List CodeLabel) : Bytes := Bytes.join "," (labels.map CodeLabel.name)

def fixupNames (fixups : List CodeFixup) : Bytes :=
  Bytes.join "," (fixups.map fun f => f.symbol ++ ":" ++ Text.decimal f.offset.toNat)

/-- What the command is asked for. -/
structure Options where
  manifest : Bytes := .empty
  code : Bytes := .empty
  machine : Bytes := "amd64"
  source : Bytes := .empty
  output : Bytes := "a.obj"
  emitManifest : Bool := false
  dump : Bytes := .empty
  interactive : Bool := false
  verbose : Bool := false
  labels : List CodeLabel := []
  fixups : List CodeFixup := []

/-- What the environment presets; an empty text presets nothing. -/
structure Environment where
  machine : Bytes := .empty
  output : Bytes := .empty
  verbose : Bytes := .empty

/-- Words for yes. -/
def yesWords : List String := ["1", "true", "t", "yes", "y", "on", "enable", "enabled"]

def orElse (b other : Bytes) : Bytes := if b.isEmpty then other else b

def Options.ofEnvironment (e : Environment) : Options :=
  { machine := orElse e.machine "amd64", output := orElse e.output "a.obj",
    verbose := yesWords.any fun w => w.toUTF8 == Text.keyword e.verbose }

/-- A flag. A switch takes a value only if that is given with an equals sign. -/
structure Flag where
  name : Bytes
  isSwitch : Bool := false
  /-- What its value is called. -/
  valueName : Bytes := .empty
  usage : Bytes
  /-- The preset value, as the usage shows it. -/
  preset : Bytes := .empty
  set : Bytes → Options → Attempt Options

/-- The texts of truth values. -/
def switchValue? (b : Bytes) : Option Bool :=
  if ["1", "t", "T", "TRUE", "true", "True"].any fun w => w.toUTF8 == b then some true
  else if ["0", "f", "F", "FALSE", "false", "False"].any fun w => w.toUTF8 == b then some false
  else none

namespace Flag

def text (name : Bytes) (preset : Bytes) (set : Options → Bytes → Options) (usage : Bytes) : Flag :=
  { name, valueName := "string", usage, set := fun v o => .ok (set o v),
    preset := if preset.isEmpty then .empty else Text.quote preset }

def switch (name : Bytes) (preset : Bool) (set : Options → Bool → Options) (usage : Bytes) : Flag :=
  { name, isSwitch := true, usage, preset := if preset then "true" else .empty,
    set := fun v o => match switchValue? v with
      | some b => .ok (set o b)
      | none => .error (.plain "parse error") }

def collect (name : Bytes) (set : Bytes → Options → Attempt Options) (usage : Bytes) : Flag :=
  { name, valueName := "value", usage, set }

/-- How the usage describes the flag. Only for a switch of one letter this is one line. -/
def describe (f : Flag) : Bytes :=
  let head := "  -" ++ f.name ++ if f.valueName.isEmpty then .empty else " " ++ f.valueName
  head ++ (if head.size ≤ 4 then ("\t" : Bytes) else "\n    \t") ++ f.usage
    ++ (if f.preset.isEmpty then (.empty : Bytes) else " (default " ++ f.preset ++ ")") ++ "\n"

end Flag

/-- All flags, sorted; the usage shows what is preset in `o`. -/
def flags (o : Options) : List Flag :=
  [.text "code" o.code (fun o v => { o with code := v }) "Path to raw machine code to wrap in .text",
   .text "dump" o.dump (fun o v => { o with dump := v }) "Print the records of an object file",
   .switch "emit-manifest" o.emitManifest (fun o v => { o with emitManifest := v })
     "Print the built object as a YAML manifest instead of writing it",
   .switch "i" o.interactive (fun o v => { o with interactive := v })
     "Interactive mode with TUI (with -dump)",
   .text "machine" o.machine (fun o v => { o with machine := v })
     "Target machine for -code (amd64, i386)",
   .text "manifest" o.manifest (fun o v => { o with manifest := v }) "Path to a YAML object manifest",
   .text "o" o.output (fun o v => { o with output := v }) "Output object file",
   .collect "reloc" (fun v o => do return { o with fixups := ← addFixup o.fixups v })
     "Relocation symbol:offset[:rel] (repeatable, with -code)",
   .text "source" o.source (fun o v => { o with source := v })
     "Source file name recorded in the .file symbol",
   .collect "sym" (fun v o => do return { o with labels := ← addLabel o.labels v })
     "Code symbol name[:offset][:public|:external] (repeatable, with -code)",
   .switch "v" o.verbose (fun o v => { o with verbose := v }) "Verbose logging"]

def usage (fs : List Flag) : Bytes := "Usage of coffgen:\n" ++ Bytes.concat (fs.map Flag.describe)

/-- Why arguments give no options. -/
inductive Refusal where
  /-- They ask for help. -/
  | help
  | bad (message : Bytes)

/-- An argument as a flag: its name, and its value if that is part of it. -/
def splitFlag (arg : Bytes) : Except Refusal (Bytes × Option Bytes) :=
  let name := arg.drop (if arg.startsWith "--" then 2 else 1)
  if name.isEmpty ∨ name.startsWith "-" ∨ name.startsWith "=" then
    .error (.bad ("bad flag syntax: " ++ arg))
  else
    match name.indexFrom 61 1 with
    | some i => .ok (name.take i, some (name.drop (i + 1)))
    | none => .ok (name, none)

def setSwitch (f : Flag) (value : Bytes) (o : Options) : Except Refusal Options :=
  match f.set value o with
  | .ok o => .ok o
  | .error e => .error (.bad ("invalid boolean value " ++ Text.quote value ++ " for -" ++ f.name
      ++ ": " ++ e.message))

def setValue (f : Flag) (value : Bytes) (o : Options) : Except Refusal Options :=
  match f.set value o with
  | .ok o => .ok o
  | .error e => .error (.bad ("invalid value " ++ Text.quote value ++ " for flag -" ++ f.name ++ ": "
      ++ e.message))

/-- Read flags up to the first argument that is none. -/
def readFlags (fs : List Flag) : List Bytes → Options → Except Refusal Options
  | [], o => .ok o
  | arg :: rest, o =>
    if arg.size < 2 ∨ ¬ arg.startsWith "-" ∨ arg = "--" then .ok o
    else
      match splitFlag arg with
      | .error r => .error r
      | .ok (name, value) =>
        match fs.find? fun f => f.name == name with
        | none =>
          if name = "help" ∨ name = "h" then .error .help
          else .error (.bad ("flag provided but not defined: -" ++ name))
        | some f =>
          if f.isSwitch then
            match setSwitch f (value.getD "true") o with
            | .ok o => readFlags fs rest o
            | .error r => .error r
          else
            match value, rest with
            | some v, rest =>
              match setValue f v o with
              | .ok o => readFlags fs rest o
              | .error r => .error r
            | none, v :: rest =>
              match setValue f v o with
              | .ok o => readFlags fs rest o
              | .error r => .error r
            | none, [] => .error (.bad ("flag needs an argument: -" ++ name))

end CoffWorks.Command
