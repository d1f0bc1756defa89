import Dossier.Path.Basic
import Dossier.Text.Case

/-!
# Source languages

The languages whose declarations can be outlined, their names, short names and file suffixes.
-/

namespace Dossier

/-- A language whose sources can be outlined. -/
inductive Language where
  | typescript
  | tsx
  | javascript
  | python
  | go
  | rust
  | java
  | csharp
  | ruby
  | php
deriving DecidableEq, Repr, Inhabited

namespace Language

/-- All languages, in their usual order. -/
def all : List Language :=
  [.typescript, .tsx, .javascript, .python, .go, .rust, .java, .csharp, .ruby, .php]

/-- The name of a language. -/
def name : Language → String
  | .typescript => "typescript"
  | .tsx => "tsx"
  | .javascript => "javascript"
  | .python => "python"
  | .go => "go"
  | .rust => "rust"
  | .java => "java"
  | .csharp => "csharp"
  | .ruby => "ruby"
  | .php => "php"

/-- Short names under which a language is known as well. -/
def shortNames : List (String × Language) :=
  [("ts", .typescript), ("js", .javascript), ("jsx", .javascript), ("py", .python), ("rs", .rust),
    ("cs", .csharp), ("c_sharp", .csharp), ("c#", .csharp), ("rb", .ruby)]

/-- The file suffixes of a language. -/
def suffixes : Language → List String
  | .typescript => [".ts", ".mts", ".cts"]
  | .tsx => [".tsx"]
  | .javascript => [".js", ".jsx", ".mjs", ".cjs"]
  | .python => [".py", ".pyi"]
  | .go => [".go"]
  | .rust => [".rs"]
  | .java => [".java"]
  | .csharp => [".cs"]
  | .ruby => [".rb"]
  | .php => [".php"]

/-- The language with a name or short name, in any case and with blanks around it. -/
def ofText? (s : String) : Option Language :=
  let key := Text.lower (Text.strip s)
  match all.find? (·.name == key) with
  | some language => some language
  | none => shortNames.lookup key

/-- The language of a file, by its suffix in any case. -/
def ofPath? (path : String) : Option Language :=
  let suffix := Text.lower (Path.ofText path).suffix
  all.find? fun language => language.suffixes.contains suffix

/-- The file suffixes of some languages, each once and in order. -/
def sortedSuffixes (languages : List Language) : List String :=
  Text.sorted (languages.flatMap suffixes).eraseDups

/-- Languages of the family whose modules list what they export. -/
def hasExports : Language → Bool
  | .typescript | .tsx | .javascript => true
  | _ => false

/-- Whether a name is that of a language whose modules list what they export. -/
def listsExports (name : String) : Bool :=
  all.any fun language => language.hasExports && language.name == name

end Language

end Dossier
