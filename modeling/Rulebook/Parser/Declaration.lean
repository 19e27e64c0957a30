import Rulebook.Parser.Chunk
import Rulebook.Parser.Name

/-!
# Declarations

Package names, imports, globals, functions and fact templates. A declaration enters the package only
when all of it has been read.
-/

namespace Rulebook.Parser

/-- The package declaration. The name can be set once, before every other statement; a later
declaration is reported and ignored. -/
def packageStatement (duplicate : Bool) : Parser Unit := do
  let token ← keyword .package
  let name ← dottedName
  skip .semicolon
  if duplicate then
    report (.failedPredicate
      "package name can only be declared once, before any other statement" (some token))
  else modify fun s => { s with package := { s.package with name } }

def importStatement : Parser Import := do
  let token ← keyword .import_
  let target ← importTarget
  skip .semicolon
  let node : Import := ⟨← close (.ofToken token), target⟩
  declare fun p => { p with imports := p.imports ++ [node] }
  return node

def functionImport : Parser Import := do
  let token ← keyword .import_
  let _ ← keyword .function
  let target ← importTarget
  skip .semicolon
  let node : Import := ⟨← close (.ofToken token), target⟩
  declare fun p => { p with functionImports := p.functionImports ++ [node] }
  return node

def globalStatement : Parser Global := do
  let token ← keyword .global
  let type ← typeName
  let name ← name
  skip .semicolon
  let node : Global := ⟨← close (.ofToken token), type, name.text⟩
  declare fun p => { p with globals := p.globals ++ [node] }
  return node

/-- The dialect that a package sets for its functions. -/
def dialectOf (attributes : Attributes) : Option String :=
  match attributes.get? Keyword.dialect.text with
  | some ⟨_, _, .text s⟩ => some s
  | some ⟨_, _, .number n⟩ => some (toString n)
  | some ⟨_, _, .flag b⟩ => some (if b then "True" else "False")
  | none => none

/-- The return type of a function, unless its name is followed by the parameters at once. -/
def returnType? : Parser (Option String) := do
  if (← current).isName && (← peek 1).kind = .symbol .lparen then return none
  else some <$> typeName

def functionStatement : Parser Function := do
  let token ← keyword .function
  let returnType ← returnType?
  let name ← name
  let parameters ← parameters
  let body ← curlyChunk
  let dialect := dialectOf (← get).package.attributes
  let node : Function :=
    ⟨← close (.ofToken token), name.text, returnType, parameters, withoutDelimiters body, dialect⟩
  declare fun p => { p with functions := p.functions ++ [node] }
  return node

def slot : Parser Slot := do
  let token ← current
  let type ← typeName
  let name ← name
  skip .semicolon
  return ⟨← close (.ofToken token), name.text, type⟩

/-- A fact template. It needs a slot. -/
def templateStatement : Parser Template := do
  let token ← keyword .template
  let title ← title
  skip .semicolon
  let slots ← repeatWhile []
    (fun _ => do
      let token ← current
      return token.kind ≠ .keyword .end_ && token.isName)
    fun slots => do return slots ++ [← slot]
  if slots.isEmpty then fail (.earlyExit "template" (← current))
  let _ ← keyword .end_
  skip .semicolon
  let node : Template := ⟨← close (.ofToken token), title, slots⟩
  declare fun p => { p with templates := p.templates ++ [node] }
  return node

end Rulebook.Parser
