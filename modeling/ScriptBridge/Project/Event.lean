/-!
# Progress

What a compilation reports about its progress, one line for each `Event`.
-/

namespace ScriptBridge

/-- A step of a compilation. -/
inductive Event where
  | loaded (path : String)
  | loadedProgram (files : Nat) (entry : String)
  | converting (file : String)
  | converted (file : String) (statements exports : Nat)
  | convertedProgram (files : Nat) (entry : String)
  | discovered (modules : Nat) (entry : String)
  | renamed (name final : String)
  | tableFilled (bindings : Nat)
  | bundled (modules statements : Nat)
  | wrote (path : String)
deriving DecidableEq, Repr

namespace Event

/-- The part of the program that reports an event. -/
def reporter : Event → String
  | loaded .. | loadedProgram .. => "tsais.frontend.frontend"
  | converting .. | converted .. | convertedProgram .. => "tsais.convert.engine"
  | discovered .. | tableFilled .. | bundled .. => "tsais.bundler.bundler"
  | renamed .. => "tsais.bundler.rename"
  | wrote .. => "tsais.cli"

/-- The wording of an event. -/
def message : Event → String
  | loaded path => "loaded module " ++ path
  | loadedProgram files entry =>
    "loaded program of " ++ toString files ++ " files from " ++ entry
  | converting file => "converting module " ++ file
  | converted file statements exports =>
    "converted " ++ file ++ ": " ++ toString statements ++ " statements, " ++ toString exports ++
      " exports"
  | convertedProgram files entry =>
    "converted program of " ++ toString files ++ " modules from " ++ entry
  | discovered modules entry => "discovered " ++ toString modules ++ " modules from " ++ entry
  | renamed name final => "renamed " ++ name ++ " -> " ++ final
  | tableFilled bindings => "rename table holds " ++ toString bindings ++ " bindings"
  | bundled modules statements =>
    "bundled " ++ toString modules ++ " modules into " ++ toString statements ++ " statements"
  | wrote path => "wrote " ++ path

/-- The line that reports an event. -/
def line (e : Event) : String :=
  "DEBUG " ++ e.reporter ++ ": " ++ e.message

end Event

end ScriptBridge
