import ProcessLint.Command.Execute

/-! The program: it looks at the files that a command may need, carries the command out on that
tree, and writes what comes of it. -/
namespace ProcessLint
namespace Program

def placeOf (start : Location) (path : String) : Location :=
  (Path.pieces path).foldl
    (fun l p => if p = "" ∨ p = "." then l else if p = ".." then l.dropLast else l ++ [p])
    (if Path.isAbsolute path then [] else start)

def withFile (t : Tree) (l : Location) : IO Tree := do
  match ← (IO.FS.readBinFile (Tree.pathOf l)).toBaseIO with
  | .ok bytes => return t.put l bytes
  | .error _ => return t

/-- Adds what lies below a directory. Links to directories are not followed, and only files with
wanted names are read. -/
partial def withBelow (wanted : String → Bool) (t : Tree) (l : Location) : IO Tree := do
  let directory := (← IO.currentDir) / Tree.pathOf l
  let .ok entries ← directory.readDir.toBaseIO
    | return t
  let mut t := { t with directories := l :: t.directories }
  for entry in entries do
    let m := l ++ [entry.fileName]
    let .ok found ← entry.path.symlinkMetadata.toBaseIO
      | continue
    if found.type matches .dir then t ← withBelow wanted t m
    else if wanted entry.fileName && !(← entry.path.isDir) then t ← withFile t m
  return t

def withPlace (wanted : String → Bool) (t : Tree) (l : Location) : IO Tree := do
  if ← ((← IO.currentDir) / Tree.pathOf l).isDir then withBelow wanted t l else withFile t l

/-- The names that mean something above the directory that is looked at. -/
def specialFiles : List Location :=
  SettingsSource.names.map (fun n => [n]) ++ Discovery.ignoreFiles {}

/-- Whether a file may matter: by its suffix, or as a special file. -/
def isWanted (s : Selection) (name : String) : Bool :=
  s.suffix.toList.isSuffixOf name.toList || specialFiles.any fun f => f.getLast? == some name

def withFiles (t : Tree) (ls : List Location) : IO Tree := ls.foldlM withFile t

def treeForCheck (t : Tree) (o : Command.CheckOptions) (config shared : Option String) :
    IO Tree := do
  let target := placeOf t.start o.path
  let t ← withFiles t <|
    (target :: Discovery.above target).flatMap fun d => specialFiles.map (d ++ ·)
  let t ← withFiles t ((config.toList ++ shared.toList.map fun s =>
    Path.join s SettingsSource.everywhereName).map (placeOf t.start))
  -- a file is looked at from its directory, so that it is needed to find the settings
  let t ← if ← ((← IO.currentDir) / Tree.pathOf target).isDir then
      pure { t with directories := target :: t.directories }
    else withFile t target
  match (SettingsSource.find t o.path config shared).load t with
  | .error _ => return t
  | .ok s =>
    let t ← withFiles t ((o.dictionary.or s.dictionary).toList.map (placeOf t.start))
    withPlace (isWanted s.selection) t target

def treeFor (i : Command.Invocation) (shared : Option String) : IO Tree := do
  let start := placeOf [] (← IO.currentDir).toString
  let t : Tree := { directories := [start], start }
  match i.request with
  | .check o => treeForCheck t o i.config shared
  | .init _ => withPlace (fun _ => false) t (start ++ [Command.settingsName])
  | _ => return t

/-- The directory of the settings for all projects: named by the environment, or at home. -/
def sharedDirectory : IO (Option String) := do
  match ← IO.getEnv "EBL_LINT_CONFIG_DIR" with
  | some directory => return some directory
  | none => return (← IO.getEnv "HOME").map (Path.join · ".ebl-lint")

def store (i : Command.Invocation) (t : Tree) : IO Bool := do
  match i.request, t.read? Command.settingsName with
  | .init _, some text =>
    let written ← (IO.FS.writeFile Command.settingsName text).toBaseIO
    return written.toOption.isSome
  | _, _ => return true

def run (arguments : List String) : IO UInt32 := do
  match Command.Invocation.ofArguments? arguments (← IO.getEnv "EBL_LINT_CONFIG") with
  | none =>
    IO.eprintln "Usage: ebl-lint [OPTIONS] <check|list-rules|init>"
    return Command.failureStatus.toUInt32
  | some i =>
    let shared ← sharedDirectory
    let t ← treeFor i shared
    let outcome := Command.execute t i shared
    let outcome ←
      if outcome.status != 0 || (← store i outcome.tree) then pure outcome
      else pure (Command.fault t Command.InitFault.unwritable.message)
    IO.print outcome.output
    if let some complaint := outcome.complaint then IO.eprintln complaint
    return outcome.status.toUInt32

end Program
end ProcessLint

def main (arguments : List String) : IO UInt32 := ProcessLint.Program.run arguments
