import MaterialGraph.Failure

/-!
The options of the command line. An option either stands alone or takes the next
argument as its value, whatever that is; the last value of an option counts.
-/

namespace MaterialGraph.CommandLine

structure Options where
  shader : Option String := none
  root : Option String := none
  material : Option String := none
  config : Option String := none
  outputDir : Option String := none
  noOptimize : Bool := false
  gles : Bool := false
deriving DecidableEq, Inhabited

def usage : String :=
  "supported: --shader <doc.json>, --root <dir>, --material <mat.json>, --config <cfg.json>, " ++
    "--output-dir <dir>, --no-optimize, --gles"

namespace Options

/-- What an argument that starts an option means. -/
inductive Flag
  | switch (set : Options → Options)
  | valued (set : Options → String → Options)

def flag? : String → Option Flag
  | "--shader" => some (.valued fun o v => { o with shader := some v })
  | "--root" => some (.valued fun o v => { o with root := some v })
  | "--material" => some (.valued fun o v => { o with material := some v })
  | "--config" => some (.valued fun o v => { o with config := some v })
  | "--output-dir" => some (.valued fun o v => { o with outputDir := some v })
  | "--outputdir" => some (.valued fun o v => { o with outputDir := some v })
  | "--no-optimize" => some (.switch fun o => { o with noOptimize := true })
  | "--gles" => some (.switch fun o => { o with gles := true })
  | _ => none

def parseFrom (o : Options) : List String → Except Fault Options
  | [] => .ok o
  | [argument] =>
    match flag? argument with
    | none => .error (.unknownArgument argument usage)
    | some (.switch set) => .ok (set o)
    | some (.valued _) => .error (.missingValue argument)
  | argument :: value :: rest =>
    match flag? argument with
    | none => .error (.unknownArgument argument usage)
    | some (.switch set) => parseFrom (set o) (value :: rest)
    | some (.valued set) => parseFrom (set o value) rest

def parse (arguments : List String) : Except Fault Options :=
  parseFrom {} arguments

end Options

end MaterialGraph.CommandLine
