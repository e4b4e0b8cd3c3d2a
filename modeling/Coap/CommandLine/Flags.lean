/-!
# Flags of a command line

A command line is a list of words. A flag has a long name and may have a short one; some flags
take a value, which follows an equals sign, directly the short name, or as the next word. Reading
goes from left to right and stops at the first word that is no flag (`read`), so that the words
behind it may have flags of their own.
-/

namespace Coap.CommandLine

/-- What is wrong with a command line. -/
inductive Misuse where
  | unexpected (word : String)
  | missingValue (flag : String)
  | unneededValue (flag : String)
  | invalidValue (flag value : String)
  | repeated (flag : String)
  | missingFlag (flag : String)
  | missingCommand
  deriving DecidableEq, Repr

/-- The wording of a misuse. -/
def Misuse.message : Misuse → String
  | unexpected word => s!"unexpected argument '{word}'"
  | missingValue flag => s!"the flag '--{flag}' needs a value"
  | unneededValue flag => s!"the flag '--{flag}' has no value"
  | invalidValue flag value => s!"invalid value '{value}' for '--{flag}'"
  | repeated flag => s!"the flag '--{flag}' is given twice"
  | missingFlag flag => s!"the flag '--{flag}' is missing"
  | missingCommand => "a command is missing"

/-- Why the rest of a command line does not matter. -/
inductive Stop where
  /-- Help is asked for. -/
  | help
  /-- The version is asked for. -/
  | version
  | misuse (why : Misuse)
  deriving DecidableEq, Repr

/-- What a flag does to the settings. -/
inductive Action (σ : Type) where
  /-- It ends the reading. -/
  | stop (why : Stop)
  /-- It takes no value. -/
  | switch (set : σ → σ)
  /-- It takes a value, if that is valid. -/
  | value (set : String → σ → Option σ)
  /-- It takes a value, if that is valid, and may be given several times. -/
  | values (add : String → σ → Option σ)

/-- A flag. -/
structure Flag (σ : Type) where
  long : String
  short? : Option Char := none
  action : Action σ

/-- A flag that sees only a part of the settings. -/
def Flag.within {σ τ : Type} (get : τ → σ) (set : σ → τ → τ) (flag : Flag σ) : Flag τ where
  long := flag.long
  short? := flag.short?
  action :=
    let lift (f : String → σ → Option σ) (value : String) (t : τ) : Option τ :=
      (f value (get t)).map (set · t)
    match flag.action with
    | .stop why => .stop why
    | .switch f => .switch fun t => set (f (get t)) t
    | .value f => .value (lift f)
    | .values f => .values (lift f)

/-- The form of a word. -/
inductive Word where
  /-- Two hyphens: no more flags. -/
  | escape
  /-- A long name, with what follows an equals sign. -/
  | long (name : String) (value? : Option String)
  /-- A short name, with what follows it. -/
  | short (name : Char) (rest : List Char)
  /-- Any other word. -/
  | plain
  deriving DecidableEq, Repr

/-- The form of a word. -/
def Word.ofString (word : String) : Word :=
  match word.toList with
  | ['-', '-'] => .escape
  | '-' :: '-' :: cs =>
    match cs.span (· ≠ '=') with
    | (name, []) => .long (String.ofList name) none
    | (name, _ :: value) => .long (String.ofList name) (some (String.ofList value))
  | '-' :: c :: cs => .short c cs
  | _ => .plain

/-- What remains where the flags end: the first word that is none, and the words behind it. -/
abbrev Rest := Option (String × List String)

/-- A reading of a command line: the flags that are given already, and the settings so far. -/
structure Reading (σ : Type) where
  given : List String := []
  settings : σ

variable {σ : Type}

/-- Notes that a flag is given. -/
def Reading.note (r : Reading σ) (flag : Flag σ) (settings : σ) : Except Stop (Reading σ) :=
  if r.given.contains flag.long then .error (.misuse (.repeated flag.long))
  else .ok ⟨flag.long :: r.given, settings⟩

/-- Takes a flag that has no value of its own in the same word. The second component tells whether
    a value has to follow. -/
def Reading.bare (r : Reading σ) (flag : Flag σ) : Except Stop (Reading σ × Bool) :=
  match flag.action with
  | .stop why => .error why
  | .switch set => (r.note flag (set r.settings)).map (·, false)
  | .value _ | .values _ => .ok (r, true)

/-- Takes a flag with a value. -/
def Reading.withValue (r : Reading σ) (flag : Flag σ) (value : String) :
    Except Stop (Reading σ) :=
  let invalid := Stop.misuse (.invalidValue flag.long value)
  match flag.action with
  | .stop _ | .switch _ => .error (.misuse (.unneededValue flag.long))
  | .value set =>
    match set value r.settings with
    | some settings => r.note flag settings
    | none => .error invalid
  | .values add =>
    match add value r.settings with
    | some settings => .ok { r with settings }
    | none => .error invalid

/-- Takes a short name with what follows it. Only a flag with a value can be followed by
    something, and an equals sign may stand between the two. -/
def Reading.short (r : Reading σ) (flag : Flag σ) : List Char → Except Stop (Reading σ × Bool)
  | [] => r.bare flag
  | c :: cs =>
    match flag.action with
    | .stop why => .error why
    | .switch _ => .error (.misuse (.unneededValue flag.long))
    | .value _ | .values _ =>
      let value := if c = '=' then cs else c :: cs
      (r.withValue flag (String.ofList value)).map (·, false)

/-- Reads the flags at the front of a command line. The flag `open?` still wants its value. -/
def readFrom (flags : List (Flag σ)) (r : Reading σ) (open? : Option (Flag σ)) :
    List String → Except Stop (σ × Rest)
  | [] =>
    match open? with
    | some flag => .error (.misuse (.missingValue flag.long))
    | none => .ok (r.settings, none)
  | word :: rest =>
    match open?, Word.ofString word with
    | some flag, .plain => do readFrom flags (← r.withValue flag word) none rest
    | some flag, _ => .error (.misuse (.missingValue flag.long))
    | none, .plain => .ok (r.settings, some (word, rest))
    | none, .escape =>
      match rest with
      | [] => .ok (r.settings, none)
      | word :: _ => .error (.misuse (.unexpected word))
    | none, .long name value? =>
      match flags.find? (·.long == name), value? with
      | none, _ => .error (.misuse (.unexpected word))
      | some flag, some value => do readFrom flags (← r.withValue flag value) none rest
      | some flag, none => do
        let (r, isOpen) ← r.bare flag
        readFrom flags r (if isOpen then some flag else none) rest
    | none, .short name tail =>
      match flags.find? (·.short? == some name) with
      | none => .error (.misuse (.unexpected word))
      | some flag => do
        let (r, isOpen) ← r.short flag tail
        readFrom flags r (if isOpen then some flag else none) rest

/-- Reads the flags at the front of a command line. -/
def read (flags : List (Flag σ)) (settings : σ) (words : List String) :
    Except Stop (σ × Rest) :=
  readFrom flags { settings } none words

end Coap.CommandLine
