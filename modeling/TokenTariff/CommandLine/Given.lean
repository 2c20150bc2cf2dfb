import TokenTariff.CommandLine.Flag
import TokenTariff.Tariff.TokenCount
/-!
# What a command line gives

The flags and the model that were found in one part of a command line. A flag may be given once.

* `Given.addSwitch` and `Given.addValue` add one more flag;
* `Scan` holds a flag back until the word after its value is known to be one that belongs here.
-/

namespace TokenTariff.CommandLine
set_option autoImplicit false

/-- Why arguments are no command: because they ask for something else, or for what is wrong with
them. -/
inductive ArgumentError where
  | helpAsked
  | versionAsked
  | nothingGiven
  | missingCommand
  | unknownCommand
  | missingModel
  | unknownArgument
  | givenTwice
  | missingValue
  | notACount
  | unwantedValue
  deriving DecidableEq

structure Given where
  switches : List Switch
  texts : List (TextFlag × String)
  counts : List (CountFlag × TokenCount)
  model : Option String

/-- The number that a decimal digit stands for. -/
def digit? (c : Char) : Option Nat :=
  if '0' ≤ c ∧ c ≤ '9' then some (c.toNat - '0'.toNat) else none

def natural? : List Char → Option Nat
  | [] => none
  | chars => chars.foldlM (fun n c => (digit? c).map (n * 10 + ·)) 0

/-- The whole number that a text writes, with or without a sign. -/
def wholeNumber? : List Char → Option Int
  | '-' :: chars => (natural? chars).map fun n => -(n : Int)
  | '+' :: chars => (natural? chars).map fun n => (n : Int)
  | chars => (natural? chars).map fun n => (n : Int)

def count? (text : String) : Option TokenCount :=
  (wholeNumber? text.toList).bind TokenCount.ofInt?

namespace Given

def empty : Given := ⟨[], [], [], none⟩

def isEmpty (given : Given) : Bool :=
  given.switches.isEmpty && given.texts.isEmpty && given.counts.isEmpty && given.model.isNone

def addSwitch (given : Given) (s : Switch) : Except ArgumentError Given :=
  if s ∈ given.switches then .error .givenTwice
  else .ok { given with switches := s :: given.switches }

def addText (given : Given) (flag : TextFlag) (text : String) : Except ArgumentError Given :=
  if (given.texts.lookup flag).isSome then .error .givenTwice
  else if flag = .pricingFile ∧ text = "" then .error .missingValue
  else .ok { given with texts := (flag, text) :: given.texts }

def addCount (given : Given) (flag : CountFlag) (text : String) : Except ArgumentError Given :=
  if (given.counts.lookup flag).isSome then .error .givenTwice
  else
    match count? text with
    | none => .error .notACount
    | some n => .ok { given with counts := (flag, n) :: given.counts }

def addValue (given : Given) : ValueFlag → String → Except ArgumentError Given
  | .text flag, text => given.addText flag text
  | .count flag, text => given.addCount flag text

end Given

/-! ## Flags that wait -/

/-- What has been found so far, and the flag that came last, if it wants a value that did not come
in one word with it: alone, or with the word that is its value. -/
structure Scan where
  given : Given
  waiting : Option (ValueFlag × Option String)

namespace Scan

def start : Scan := ⟨.empty, none⟩

/-- Adds the flag that waits. -/
def settle (scan : Scan) : Except ArgumentError Given :=
  match scan.waiting with
  | none => .ok scan.given
  | some (_, none) => .error .missingValue
  | some (flag, some text) => scan.given.addValue flag text

/-- Takes a flag, and the value that stands in one word with it. -/
def takeFlag (scan : Scan) : Flag → (attached : Option String) → Except ArgumentError Scan
  | .value flag, some text => do
    let given ← scan.settle
    let given ← given.addValue flag text
    .ok ⟨given, none⟩
  | .value flag, none => do
    let given ← scan.settle
    .ok ⟨given, some (flag, none)⟩
  | _, some _ => .error .unwantedValue
  | .switch s, none => do
    let given ← scan.settle
    let given ← given.addSwitch s
    .ok ⟨given, none⟩
  | .help, none => do
    let _ ← scan.settle
    .error .helpAsked
  | .version, none => do
    let _ ← scan.settle
    .error .versionAsked

/-- Takes the letters of a word that begins with one dash. What follows the letter of a flag that
wants a value is its value, with or without an equals sign. -/
def takeLetters (part : Part) : List Char → Scan → Except ArgumentError Scan
  | [], scan => .ok scan
  | letter :: rest, scan =>
    match Flag.lettered? part letter with
    | none => .error .unknownArgument
    | some (.value flag) =>
      match rest with
      | [] => scan.takeFlag (.value flag) none
      | '=' :: text => scan.takeFlag (.value flag) (some (String.ofList text))
      | text => scan.takeFlag (.value flag) (some (String.ofList text))
    | some flag => do
      let scan ← scan.takeFlag flag none
      takeLetters part rest scan

/-- Takes a word that begins with two dashes: the name of a flag, and a value after an equals
sign. -/
def takeName (part : Part) (chars : List Char) (scan : Scan) : Except ArgumentError Scan :=
  let name := chars.takeWhile (· != '=')
  match Flag.named? part (String.ofList name) with
  | none => .error .unknownArgument
  | some flag =>
    match chars.drop name.length with
    | [] => scan.takeFlag flag none
    | _ :: text => scan.takeFlag flag (some (String.ofList text))

/-- Takes a word that is no flag as the model, where one is wanted. -/
def takeModel (part : Part) (word : String) (scan : Scan) : Except ArgumentError Scan :=
  if part.wantsModel && scan.given.model.isNone then do
    let given ← scan.settle
    .ok ⟨{ given with model := some word }, none⟩
  else .error .unknownArgument

end Scan

end TokenTariff.CommandLine
