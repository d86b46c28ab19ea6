import ProcessLint.Run.Output

/-! The command line: subcommands, their options, and what is given for them. -/
namespace ProcessLint
namespace Command

/-- An option: its long name, perhaps a letter, and whether a value follows. -/
structure Switch where
  name : String
  letter : Option Char := none
  takesValue : Bool := false

/-- What stands in a command line. -/
inductive Given
  | option (name : String) (value : Option String)
  | positional (s : String)

namespace Switch

/-- Options of every subcommand, which may also stand before it. -/
def shared : List Switch :=
  [{ name := "verbose", letter := some 'v' },
   { name := "config", letter := some 'c', takesValue := true },
   { name := "help", letter := some 'h' }]

def root : List Switch := { name := "version", letter := some 'V' } :: shared

def check : List Switch :=
  [{ name := "dictionary", letter := some 'd', takesValue := true },
   { name := "format", letter := some 'f', takesValue := true },
   { name := "heuristics", takesValue := true },
   { name := "no-unknown-assets" },
   { name := "exclude", letter := some 'e', takesValue := true },
   { name := "fail-on", takesValue := true }] ++ shared

def init : List Switch := { name := "force" } :: shared

end Switch

/-- A text that cannot be the value of the option before it. -/
def looksLikeOption (s : String) : Bool := s.toList.head? == some '-' && s != "-"

/-- The options in a group of letters behind one dash. The value of an option is the rest of the
group, or else missing, which the second component tells. -/
def letters? (switches : List Switch) : List Char → Option (List Given × Option Switch)
  | [] => some ([], none)
  | c :: r =>
    match switches.find? fun s => s.letter == some c with
    | none => none
    | some s =>
      if s.takesValue then
        match r with
        | [] => some ([], some s)
        | '=' :: v => some ([.option s.name (some (.ofList v))], none)
        | v => some ([.option s.name (some (.ofList v))], none)
      else (letters? switches r).map fun (gs, open?) => (.option s.name none :: gs, open?)

/-- The option behind two dashes, with a value behind an equals sign, or else missing. -/
def word? (switches : List Switch) (cs : List Char) : Option (List Given × Option Switch) :=
  let name := String.ofList (cs.takeWhile (· != '='))
  let value := (cs.dropWhile (· != '=')).tail?.map String.ofList
  match switches.find? fun s => s.name == name with
  | none => none
  | some s =>
    match s.takesValue, value with
    | true, some v => some ([.option name (some v)], none)
    | true, none => some ([], some s)
    | false, some _ => none
    | false, none => some ([.option name none], none)

/-- The options and positions of a command line. Two dashes end the options. With `leading`,
reading stops at the first position, and what is left is given back. -/
def read? (switches : List Switch) (leading : Bool) :
    List String → Option (List Given × List String)
  | [] => some ([], [])
  | a :: rest =>
    let group := match a.toList with
      | '-' :: '-' :: cs => some (word? switches cs)
      | '-' :: c :: cs => some (letters? switches (c :: cs))
      | _ => none
    if a = "--" then
      if leading then none else some (rest.map .positional, [])
    else
      match group with
      | none =>
        if leading then some ([], a :: rest)
        else (read? switches leading rest).map fun (gs, l) => (.positional a :: gs, l)
      | some none => none
      | some (some (gs, none)) =>
        if gs.any fun | .option "version" _ | .option "help" _ => true | _ => false then
          some (gs, [])
        else (read? switches leading rest).map fun (hs, l) => (gs ++ hs, l)
      | some (some (gs, some s)) =>
        match rest with
        | v :: rest =>
          if looksLikeOption v then none
          else (read? switches leading rest).map fun (hs, l) =>
            (gs ++ .option s.name (some v) :: hs, l)
        | [] => none

structure CheckOptions where
  path : String := "."
  dictionary : Option String := none
  format : Run.Format := .text
  heuristics : Option String := none
  noUnknownAssets : Bool := false
  exclude : List String := []
  failOn : Option Severity := none

inductive Request
  | check (options : CheckOptions)
  | listRules
  | init (force : Bool)
  | version
  | help

structure Invocation where
  request : Request
  /-- The settings file that is named. -/
  config : Option String := none

/-- The values given for the options so far, each option once unless it may be repeated. -/
structure Reading where
  values : List (String × Option String) := []
  positions : List String := []

namespace Reading

def repeatable : List String := ["exclude"]

/-- Whether a value is allowed: paths are not empty, and words are among those known. -/
def allows (name : String) (value : Option String) : Bool :=
  match name, value with
  | "config", some v | "dictionary", some v => v != ""
  | "format", some v => (Run.Format.ofName? v).isSome
  | "fail-on", some v => (Severity.ofName? v).isSome
  | _, _ => true

def add? (r : Reading) : Given → Option Reading
  | .option name value =>
    if allows name value && (repeatable.contains name || !r.values.any (·.1 == name)) then
      some { r with values := r.values ++ [(name, value)] }
    else none
  | .positional s => some { r with positions := r.positions ++ [s] }

def ofGiven? (gs : List Given) : Option Reading := gs.foldlM add? {}

def has (r : Reading) (name : String) : Bool := r.values.any (·.1 == name)

def valuesOf (r : Reading) (name : String) : List String :=
  (r.values.filter (·.1 == name)).filterMap Prod.snd

def value? (r : Reading) (name : String) : Option String := (r.valuesOf name).head?

def path? (r : Reading) : Option String :=
  match r.positions with
  | [] => some "."
  | [p] => if p = "" then none else some p
  | _ => none

def checkOptions? (r : Reading) : Option CheckOptions := do
  let path ← r.path?
  some {
    path
    dictionary := r.value? "dictionary"
    format := ((r.value? "format").bind Run.Format.ofName?).getD .text
    heuristics := r.value? "heuristics"
    noUnknownAssets := r.has "no-unknown-assets"
    exclude := r.valuesOf "exclude"
    failOn := (r.value? "fail-on").bind Severity.ofName? }

/-- What is asked for without a subcommand. -/
def early? (r : Reading) : Option Request :=
  if r.has "version" then some .version else if r.has "help" then some .help else none

end Reading

def subcommand? (name : String) : Option (List Switch × (Reading → Option Request)) :=
  match name with
  | "check" => some (Switch.check, fun r => r.checkOptions?.map .check)
  | "list-rules" =>
    some (Switch.shared, fun r => if r.positions.isEmpty then some .listRules else none)
  | "init" =>
    some (Switch.init, fun r => if r.positions.isEmpty then some (.init (r.has "force")) else none)
  | "help" => some ([], fun _ => some .help)
  | _ => none

/-- The settings file named closest to the end, or else by the environment, which may not name an
empty path. -/
def config? (early late environment : Option String) : Option (Option String) :=
  match environment with
  | some "" => if early.isSome && late.isSome then some late else none
  | _ => some ((late.or early).or environment)

/-- Reads a command line, where `environment` names a settings file too. -/
def Invocation.ofArguments? (arguments : List String) (environment : Option String) :
    Option Invocation := do
  let (given, rest) ← read? Switch.root true arguments
  let early ← Reading.ofGiven? given
  match early.early? with
  | some request => some { request }
  | none =>
    let (name, rest) ← rest.head?.map (·, rest.tail)
    let (switches, request?) ← subcommand? name
    let (given, _) ← read? switches false rest
    let late ← Reading.ofGiven? given
    match late.early? with
    | some request => some { request }
    | none =>
      let request ← request? late
      let config ← config? (early.value? "config") (late.value? "config") environment
      some { request, config }

end Command
end ProcessLint
