import Lexicon.Table
import Lexicon.Text.Digits

/-! Reading the arguments of a command. Arguments are options, operands, or `--`, after which there
are only operands. A long option may be cut short while it stays unambiguous, and its value follows
it or an equals sign; the letter of a short one may be repeated. Values are looked at in the order
in which they stand, so that the first mistake, or the first option that ends the reading, is the
one that counts. -/
namespace Lexicon.Command

/-- A value that passes a test follows the option, nothing does, or the option ends all reading. -/
inductive OptionKind where
  | value (accepts : Text → Bool)
  | flag
  | stop

structure OptionForm where
  name : Text
  kind : OptionKind

/-- One operand, one or more, or one and everything after it, options included. Only the last of a
command's operands may be more than one. The one that a rest starts with stands before any `--`. -/
inductive OperandForm where
  | one (accepts : Text → Bool)
  | many (accepts : Text → Bool)
  | rest

/-- What a command takes. -/
structure Form where
  options : List OptionForm
  operands : List OperandForm

def separatorText : Text := "--".toList

inductive Argument where
  | separator
  | word (s : Text)
  | option (form : OptionForm) (value? : Option Text) (s : Text)
  | unknown (s : Text)

namespace Argument

/-- The argument as it was written. -/
def text : Argument → Text
  | separator => separatorText
  | word s | option _ _ s | unknown s => s

/-- A minus sign and decimal digits, with at most one point that digits follow. -/
def isNegativeNumber (s : Text) : Bool :=
  match s with
  | '-' :: s =>
    let isDigit (c : Char) : Bool := (Text.digitValue? c).isSome
    let s := if s.getLast? = some '\n' then s.dropLast else s
    match s.dropWhile isDigit with
    | [] => !s.isEmpty
    | c :: fraction => c = '.' && !fraction.isEmpty && fraction.all isDigit
  | _ => false

/-- The text before the first equals sign, and the one after it if there is one. -/
def splitValue (s : Text) : Text × Option Text :=
  match s.dropWhile (· ≠ '=') with
  | [] => (s, none)
  | _ :: value => (s.takeWhile (· ≠ '='), some value)

/-- An argument that starts like an option but is none: a negative number and anything with a space
are words. -/
def ofUnmatched (s : Text) : Argument :=
  if isNegativeNumber s || ' ' ∈ s then .word s else .unknown s

/-- Whether a value repeats the letter of a short option. -/
def repeats (name value : Text) : Bool :=
  !value.isEmpty && value.all fun c => name = ['-', c]

/-- An option with the value written in the same argument. -/
def ofOption (form : OptionForm) (value? : Option Text) (s : Text) : Argument :=
  match form.kind with
  | .value _ => .option form value? s
  | _ => .option form (value?.filter fun value => !repeats form.name value) s

/-- The options that an argument may mean when it is not their full name, each with its value: a
long name cut short, or a short name and what follows it. -/
def candidates (options : List OptionForm) (s : Text) : List (OptionForm × Option Text) :=
  if s.startsWith separatorText then
    let (name, value?) := splitValue s
    (options.filter (·.name.startsWith name)).map fun form => (form, value?)
  else
    (options.filter (·.name = s.take 2)).map fun form => (form, some (s.drop 2))

/-- Reads an argument, unless it could be several options. -/
def ofText? (options : List OptionForm) (s : Text) : Option Argument :=
  if s.head? ≠ some '-' ∨ s.length = 1 then some (.word s)
  else
    let (name, value?) := splitValue s
    match options.find? (·.name = s), options.find? (·.name = name) with
    | some form, _ => some (.option form none s)
    | none, some form => some (ofOption form value? s)
    | none, none =>
      match candidates options s with
      | [] => some (.ofUnmatched s)
      | [(form, value?)] => some (ofOption form value? s)
      | _ => none

/-- Reads arguments in order; after the separator all are words. -/
def ofTexts? (options : List OptionForm) : List Text → Option (List Argument)
  | [] => some []
  | s :: rest =>
    if s = separatorText then some (.separator :: rest.map .word)
    else do return (← ofText? options s) :: (← ofTexts? options rest)

end Argument

/-- Operands and options with their values, in order, and whether there were arguments that nothing
takes. A value is absent where `--` stands for it. -/
structure Values where
  operands : List (Option Text)
  options : List (Text × Option Text)
  superfluous : Bool
  deriving DecidableEq

/-- What reading arguments gives: nothing on a mistake, the option that ended the reading, or the
values. -/
inductive Reading where
  | mistaken
  | stopped (name : Text)
  | complete (values : Values)
  deriving DecidableEq

namespace Reading

def addOperand (value? : Option Text) : Reading → Reading
  | complete values => complete { values with operands := value? :: values.operands }
  | r => r

def addOption (name : Text) (value? : Option Text) : Reading → Reading
  | complete values => complete { values with options := (name, value?) :: values.options }
  | r => r

def markSuperfluous : Reading → Reading
  | complete values => complete { values with superfluous := true }
  | r => r

/-- What the argument just read was: the separator, an operand, the last of an open list, or
something else. A separator right after an operand says nothing. -/
inductive Previous where
  | other
  | separator
  | operand
  | listed (accepts : Text → Bool)

/-- Goes on when a value is none or passes its test. -/
def ifAccepted (accepts : Text → Bool) (value? : Option Text) (r : Reading) : Reading :=
  if value?.all accepts then r else mistaken

/-- The value that a text is; `--` stands for none. -/
def value? (s : Text) : Option Text := if s = separatorText then none else some s

/-- The value of an operand. Right after the separator every text is one. -/
def operandValue? : Previous → Text → Option Text
  | .separator, s => some s
  | _, s => value? s

/-- Reads arguments for the operands that are still to come. -/
def ofArguments (pending : List OperandForm) (previous : Previous) : List Argument → Reading
  | [] => if pending.isEmpty then .complete ⟨[], [], false⟩ else .mistaken
  | .separator :: rest =>
    match pending, previous with
    | [.rest], _ => .mistaken
    | [], .other => (ofArguments [] .other rest).markSuperfluous
    | pending, .other => ofArguments pending .separator rest
    | pending, previous => ofArguments pending previous rest
  | .word s :: rest =>
    match previous, pending with
    | .listed accepts, _ =>
      ifAccepted accepts (some s) ((ofArguments pending previous rest).addOperand (some s))
    | _, .one accepts :: pending =>
      let v := operandValue? previous s
      ifAccepted accepts v ((ofArguments pending .operand rest).addOperand v)
    | _, .many accepts :: pending =>
      ifAccepted accepts (some s)
        ((ofArguments pending (.listed accepts) rest).addOperand (some s))
    | _, .rest :: _ => .complete ⟨some s :: rest.map fun a => some a.text, [], false⟩
    | _, [] => (ofArguments [] .other rest).markSuperfluous
  | .unknown _ :: rest => (ofArguments pending .other rest).markSuperfluous
  | .option form (some s) _ :: rest =>
    match form.kind with
    | .value accepts =>
      ifAccepted accepts (value? s)
        ((ofArguments pending .other rest).addOption form.name (value? s))
    | _ => .mistaken
  | .option form none _ :: rest =>
    match form.kind with
    | .flag => (ofArguments pending .other rest).addOption form.name none
    | .stop => .stopped form.name
    | .value accepts =>
      match rest with
      | .word s :: rest =>
        ifAccepted accepts (some s)
          ((ofArguments pending .other rest).addOption form.name (some s))
      | _ => .mistaken

end Reading

/-- Reads the arguments of a command. -/
def Form.read (form : Form) (args : List Text) : Reading :=
  match Argument.ofTexts? form.options args with
  | some arguments => .ofArguments form.operands .other arguments
  | none => .mistaken

end Lexicon.Command
