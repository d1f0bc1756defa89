import Dossier.Outline.Declaration

/-!
# Outlines without a grammar

Where no syntax tree is at hand, a declaration is a line that starts in the first column and fits
one of the patterns of its language; the first pattern that fits decides. Group 1 of a pattern is
an export keyword, group 2 the name.
-/

namespace Dossier.Outline.LineRules

open Text (Pattern strip stripEnd)

/-- A pattern for a line, and what a line that fits it declares. -/
structure Rule where
  pattern : Pattern
  kind : Kind

/-! ## Building blocks -/

/-- A word and at least one blank. -/
def spaced (w : String) : Pattern :=
  .seq (.lit w) .blanks

/-- A word and at least one blank, or nothing. -/
def maybe (w : String) : Pattern :=
  .opt (spaced w)

/-- Any number of the words, each with blanks after it. -/
def modifiers (ws : List String) : Pattern :=
  .many (.seq (.anyOf ws) .blanks)

/-- The name of a declaration. -/
def name : Pattern :=
  .group 2 .word

/-- The export keyword. -/
def exportWord : Pattern :=
  .group 1 (spaced "export")

/-- Capitals, digits and underscores, a capital first. -/
def constantName : Pattern :=
  .group 2 (.seq (.one Char.isUpper) (.run 0 fun c => c.isUpper || c.isDigit || c == '_'))

/-- A word after which no word character follows. -/
def wholeWord (w : String) : Pattern :=
  .seq (.lit w) .boundary

/-- A visibility with an optional scope. -/
def rustVisibility : Pattern :=
  .opt (.all
    [.lit "pub", .opt (.all [.lit "(", .run 0 (· != ')'), .lit ")"]), .blanks])

/-! ## The rules -/

/-- Rules of the languages that have export keywords. -/
def scriptRules : List Rule :=
  [⟨.all [.opt exportWord, maybe "default", maybe "declare", maybe "async", .lit "function", .gap,
      .opt (.lit "*"), .gap, .opt name], .function⟩,
    ⟨.all [.opt exportWord, maybe "default", maybe "declare", maybe "abstract", spaced "class",
      .opt name], .cls⟩,
    ⟨.all [.opt exportWord, maybe "declare", spaced "interface", name], .interface⟩,
    ⟨.all [.opt exportWord, maybe "declare", spaced "type", name, .gap,
      .opt (.all [.lit "<", .run 0 (· != '='), .lit ">"]), .gap, .lit "="], .type⟩,
    ⟨.all [.opt exportWord, maybe "declare", maybe "const", spaced "enum", name], .enum⟩,
    ⟨.all [exportWord, maybe "declare", .anyOf ["const", "let", "var"], .blanks, name], .const⟩]

/-- Rules of each language. -/
def rulesOf : Language → List Rule
  | .typescript | .tsx | .javascript => scriptRules
  | .python =>
    [⟨.all [maybe "async", spaced "def", name], .function⟩,
      ⟨.all [spaced "class", name], .cls⟩,
      ⟨.all [constantName, .gap, .opt (.seq (.lit ":") (.run 1 (· != '='))), .lit "="], .const⟩]
  | .go =>
    [⟨.all [spaced "func", .opt (.all [.lit "(", .run 0 (· != ')'), .lit ")", .gap]), name],
        .function⟩,
      ⟨.all [spaced "type", name, .blanks, wholeWord "struct"], .cls⟩,
      ⟨.all [spaced "type", name, .blanks, wholeWord "interface"], .interface⟩,
      ⟨.all [spaced "type", name, .boundary], .type⟩]
  | .rust =>
    [⟨.all [rustVisibility, maybe "async", maybe "unsafe", spaced "fn", name], .function⟩,
      ⟨.all [rustVisibility, spaced "struct", name], .cls⟩,
      ⟨.all [rustVisibility, spaced "enum", name], .enum⟩,
      ⟨.all [rustVisibility, spaced "trait", name], .interface⟩,
      ⟨.all [rustVisibility, spaced "type", name], .type⟩,
      ⟨.all [rustVisibility, .anyOf ["const", "static"], .blanks, name], .const⟩]
  | .java =>
    [⟨.all [modifiers ["public", "protected", "private", "abstract", "final", "static", "sealed"],
        .anyOf ["class", "record"], .blanks, name], .cls⟩,
      ⟨.all [modifiers ["public", "protected", "private", "abstract", "sealed"],
        spaced "interface", name], .interface⟩,
      ⟨.all [modifiers ["public", "protected", "private"], spaced "enum", name], .enum⟩]
  | .csharp =>
    [⟨.all [modifiers ["public", "internal", "protected", "private", "abstract", "sealed",
        "static", "partial"], .anyOf ["class", "struct", "record"], .blanks, name], .cls⟩,
      ⟨.all [modifiers ["public", "internal", "protected", "private", "partial"],
        spaced "interface", name], .interface⟩,
      ⟨.all [modifiers ["public", "internal", "protected", "private"], spaced "enum", name],
        .enum⟩]
  | .ruby =>
    [⟨.all [spaced "def", .group 2 (.all [.opt (.lit "self."), .word,
        .opt (.one fun c => c == '?' || c == '!' || c == '=')])], .function⟩,
      ⟨.all [.anyOf ["class", "module"], .blanks,
        .group 2 (.run 1 fun c => Text.isWord c || c == ':')], .cls⟩]
  | .php =>
    [⟨.all [spaced "function", name], .function⟩,
      ⟨.all [modifiers ["abstract", "final", "readonly"], .anyOf ["class", "trait"], .blanks, name],
        .cls⟩,
      ⟨.all [spaced "interface", name], .interface⟩,
      ⟨.all [spaced "enum", name], .enum⟩]

/-! ## Signatures -/

/-- The characters up to the first `opener` outside brackets; `done` are those seen so far, in
reverse. Angle brackets count as brackets, and a closing bracket with none open is skipped. -/
def cutChars (opener : Char) (depth : Nat) (done : List Char) : List Char → List Char
  | [] => done.reverse
  | c :: cs =>
    if c = '(' ∨ c = '[' ∨ c = '<' then cutChars opener (depth + 1) (c :: done) cs
    else if (c = ')' ∨ c = ']' ∨ c = '>') ∧ 0 < depth then cutChars opener (depth - 1) (c :: done) cs
    else if c = opener ∧ depth = 0 then done.reverse
    else cutChars opener depth (c :: done) cs

/-- A declaration on one line, up to its body. -/
def cutBody (line : String) (opener : Char) : String :=
  String.ofList (cutChars opener 0 [] line.toList)

/-- The character with which a body begins. -/
def bodyOpener : Language → Char
  | .python => ':'
  | _ => '\x7b'

/-- The declaration on a line, without body and terminators. -/
def signatureOf (language : Language) (kind : Kind) (line : String) : String :=
  let text := strip line
  let text := if kind = .function ∨ kind = .cls then cutBody text (bodyOpener language) else text
  let text := if language = .ruby ∧ Text.endsWith text " do" then Text.dropEnd 3 text else text
  stripEnd (Text.trimEnd (· == ';') (stripEnd text))

/-- The name of a declaration without a name of its own. -/
def defaultName (line : String) : String :=
  if Text.contains (" " ++ line ++ " ") " default " then "default" else anonymous

/-- The declaration that a rule finds on a line. -/
def applyRule? (language : Language) (number : Nat) (line : String) (rule : Rule) : Option Declaration :=
  (rule.pattern.matchAt line.toList).map fun found =>
    { kind := rule.kind
      name := match found.group? 2 with
        | some text => String.ofList text
        | none => defaultName line
      signature := signatureOf language rule.kind line
      exported := !language.hasExports || (found.group? 1).isSome
      line := number }

/-- The declaration on a line, if it starts in the first column. -/
def entryOn? (language : Language) (number : Nat) (line : String) : Option Declaration :=
  match line.toList with
  | [] => none
  | c :: _ => if Text.isBlank c then none
    else (rulesOf language).findSome? (applyRule? language number line)

/-- The outline of a source, line by line. -/
def outline (language : Language) (source : String) : List Declaration :=
  ((Text.lines source).zipIdx 1).filterMap fun (line, number) => entryOn? language number line

end Dossier.Outline.LineRules
