import PseudoMove.Listing.Scan
import PseudoMove.Module
import PseudoMove.TypeText
import PseudoMove.Text.Lines
/-!
# Declaration lines

The lines of a listing that declare something outside function bodies: module, use, constant, struct,
field and function. A function header is recognised by how it begins, before its signature is read, so
a line may be a function header whose signature is then rejected.
-/

namespace PseudoMove.Listing

open PseudoMove.Text PseudoMove.Bracket

/-! ### Modules, uses and constants -/

/-- A character of a module path. -/
def isModulePart (c : Char) : Bool := c.isAlphanum || c == '_' || c == ':' || c == '.'

/-- Reads a module header up to the end of its line, and gives the module's path. -/
def modulePath? (line : List Char) : Option (List Char) := do
  let s ← keyword? "module".toList (trimStart line)
  let path := s.takeWhile isModulePart
  if path = [] then none
  else
    match trimStart (s.dropWhile isModulePart) with
    | [] => some path
    | '{' :: r => if r.all isBlank then some path else none
    | _ => none

/-- Reads a module header. The module's name is the last segment of its path that is not empty, the
segments being separated by colons or dots. -/
def moduleName? (line : List Char) : Option String := do
  let path ← modulePath? line
  let name ← (path.splitOnP fun c => c == ':' || c == '.').reverse.find? (· ≠ [])
  some (String.ofList name)

/-- Reads a use declaration: one path without semicolons, and perhaps a semicolon after it. The path is
never empty, so where nothing but blanks is left the last of them is the path, if the keyword has
another one behind it. -/
def useDecl? (line : List Char) : Option UseDecl := do
  let s ← afterPrefix? "use".toList (trimStart line)
  let lead := s.takeWhile isBlank
  if lead = [] then none
  else
    let t := trim s
    let path := if t.getLast? = some ';' then trimEnd t.dropLast else t
    if path = [] then
      if 2 ≤ lead.length then lead.getLast?.map fun c => ⟨String.ofList [c]⟩ else none
    else if path.contains ';' then none
    else some ⟨String.ofList path⟩

/-- Reads a constant. The type goes up to the first equals sign and is not empty: of blanks alone, the
last one is the type. -/
def constDecl? (line : List Char) : Option ConstDecl := do
  let s ← keyword? "const".toList (trimStart line)
  let (name, s) ← name? s
  let s ← mark? ':' s
  let given := s.takeWhile (· ≠ '=')
  let constType ← if trim given = [] then given.getLast?.map ([·]) else some (trim given)
  let s ← afterPrefix? ['='] (s.dropWhile (· ≠ '='))
  let value ← closedValue? ';' s
  some {
    name := String.ofList name
    constType := String.ofList constType
    value := String.ofList value }

/-! ### Structs -/

/-- A character of a list of abilities. -/
def isAbilityPart (c : Char) : Bool := c.isAlpha || c == '_' || c == ',' || isBlank c

/-- Whether a struct header may end here: at the end of the line, or at a brace with anything after it
on the line. -/
def endsHeader : List Char → Bool
  | [] => true
  | '{' :: s => onOneLine s
  | _ => false

/-- Reads the abilities after `has`, up to the end of the header. There has to be at least one
character between the blank after `has` and the end. -/
def abilityList? (s : List Char) : Option (List Char) :=
  let lead := s.takeWhile isBlank
  let t := trimStart s
  let given := t.takeWhile isAbilityPart
  if lead = [] ∨ !endsHeader (t.dropWhile isAbilityPart) then none
  else if given = [] then if 2 ≤ lead.length then some [] else none
  else some (trimEnd given)

/-- Reads what follows the name in a struct header: type parameters in angle brackets and abilities,
both optional. -/
def structTail? (s : List Char) : Option (Option (List Char) × List Char) := do
  let (params, s) ← match trimStart s with
    | '<' :: r =>
      match r.dropWhile (· ≠ '>') with
      | _ :: after => some (some (r.takeWhile (· ≠ '>')), after)
      | [] => none
    | r => some (none, r)
  match afterPrefix? "has".toList (trimStart s) with
  | some r => (abilityList? r).map fun a => (params, a)
  | none => if endsHeader (trimStart s) then some (params, []) else none

/-- Reads a struct header as name, type parameters and abilities. If the line cannot be read with the
longest name, a name that ends in `has` is read again as a shorter name followed by abilities. -/
def structParts? (line : List Char) :
    Option (List Char × Option (List Char) × List Char) := do
  let s := trimStart line
  let s := (keyword? "public".toList s).getD s
  let s ← keyword? "struct".toList s
  let (name, s) ← name? s
  match structTail? s with
  | some tail => some (name, tail)
  | none =>
    match beforeSuffix? "has".toList name with
    | none | some [] => none
    | some short => (abilityList? s).map fun a => (short, none, a)

/-- Reads a struct header. Words that name no ability are passed over. -/
def structHeader? (line : List Char) : Option StructDecl := do
  let (name, params, abilities) ← structParts? line
  some {
    name := String.ofList name
    typeParameters := match params with
      | some ps => (splitOutside ',' ps).map String.ofList
      | none => []
    abilities := Ability.ofWords (abilities.splitOn ',') }

/-- Reads a field, a name and a type with a colon between them. Commas at the end do not belong to the
type. -/
def field? (line : List Char) : Option Field := do
  let (name, s) ← name? (trimStart line)
  let s ← mark? ':' s
  let value ← closedValue? ',' s
  let ty := trim (dropEndWhile (· == ',') (trim value))
  if ty = [] then none else some ⟨String.ofList name, String.ofList ty⟩

/-! ### Functions -/

/-- Reads the scope in parentheses that may follow `public`. -/
def scope? (s : List Char) : Option (List Char) := do
  let s ← mark? '(' s
  let s := trimStart s
  let s ← (afterPrefix? "friend".toList s).or (afterPrefix? "package".toList s)
  mark? ')' s

/-- The modifiers that are one word. -/
def plainModifiers : List String := ["public", "entry", "friend", "private", "native"]

/-- Reads `public` with a scope, and the blanks after it. -/
def scopedModifier? (s : List Char) : Option (List Char) := do
  let s ← afterPrefix? "public".toList s
  let s ← scope? s
  keyword? [] s

/-- Reads one modifier and the blanks after it. -/
def modifier? (s : List Char) : Option (List Char) :=
  (scopedModifier? s).or (plainModifiers.findSome? fun w => keyword? w.toList s)

theorem length_le_of_mark? {m : Char} {s r : List Char} (h : mark? m s = some r) :
    r.length ≤ s.length := by
  have hd : (trimStart s).length ≤ s.length := (List.dropWhile_suffix isBlank).length_le
  unfold mark? at h
  split at h
  · next c q hq =>
    split at h
    · cases h
      rw [hq] at hd
      simp only [List.length_cons] at hd
      omega
    · simp at h
  · simp at h

theorem length_le_of_scope? {s r : List Char} (h : scope? s = some r) : r.length ≤ s.length := by
  simp only [scope?, bind, Option.bind_eq_some_iff] at h
  obtain ⟨a, ha, b, hb, hr⟩ := h
  have h1 := length_le_of_mark? ha
  have h2 : (trimStart a).length ≤ a.length := (List.dropWhile_suffix isBlank).length_le
  have h3 : b.length ≤ (trimStart a).length := by
    rcases Option.or_eq_some_iff.1 hb with h | ⟨_, h⟩ <;> exact length_le_of_afterPrefix? h
  have h4 := length_le_of_mark? hr
  omega

theorem length_lt_of_modifier? {s r : List Char} (h : modifier? s = some r) :
    r.length < s.length := by
  rcases Option.or_eq_some_iff.1 h with h | ⟨_, h⟩
  · simp only [scopedModifier?, bind, Option.bind_eq_some_iff] at h
    obtain ⟨a, ha, b, hb, h⟩ := h
    have h1 := length_le_of_afterPrefix? ha
    have h2 := length_le_of_scope? hb
    have h3 := length_lt_of_keyword? h
    omega
  · obtain ⟨w, _, h⟩ := List.exists_of_findSome?_eq_some h
    exact length_lt_of_keyword? h

/-- What is left of a line after one modifier, after two, and so on. -/
def afterModifiers (s : List Char) : List (List Char) :=
  match _h : modifier? s with
  | none => []
  | some r => r :: afterModifiers r
termination_by s.length
decreasing_by exact length_lt_of_modifier? _h

/-- Reads a function's name, after `fun` if the word stands there as a keyword of its own. -/
def functionName? (s : List Char) : Option (List Char × List Char) :=
  ((keyword? "fun".toList s).bind name?).or (name? s)

/-- Reads the beginning of a function header, as its modifiers, its name and the rest. As many words
as possible are modifiers, provided that a name is left; without a modifier there has to be `fun`. -/
def functionStart? (line : List Char) : Option (List Char × List Char × List Char) :=
  let s := trimStart line
  ((afterModifiers s).reverse.findSome? fun r =>
      (functionName? r).map fun p => (s.take (s.length - r.length), p.1, p.2)).or
    (((keyword? "fun".toList s).bind name?).map fun p => ([], p.1, p.2))

/-- Words that may follow modifiers on a line that is no function header. -/
def otherKeywords : List String := ["struct", "module", "use", "const", "enum", "friend"]

/-- The modifiers as words. A scope counts as part of `public` where single spaces at most stand around
its parentheses. -/
def modifierWords (s : List Char) : List String :=
  let s := replace "( ".toList "(".toList s
  let s := replace " )".toList ")".toList s
  let s := replace "public (".toList "public(".toList s
  (words s).map String.ofList

/-- Reads a parameter, the `index`-th of its function. Without a name before the first colon the whole
text is the type, and the name is made from the index. -/
def parameter (index : Nat) (s : List Char) : Parameter :=
  let name := s.takeWhile (· ≠ ':')
  match s.dropWhile (· ≠ ':') with
  | _ :: ty =>
    if trim name ≠ [] ∧ !name.contains '<' then
      ⟨String.ofList (trim name), String.ofList (trim ty)⟩
    else ⟨"Arg" ++ toString index, String.ofList (trim s)⟩
  | [] => ⟨"Arg" ++ toString index, String.ofList (trim s)⟩

/-- The return type that the text after the parameters gives, if it begins with a colon. Opening braces
and semicolons at the end and an acquires clause do not belong to it. -/
def returnType (s : List Char) : List Char :=
  match trim (dropEndWhile (fun c => c == '{' || c == ';') (trim s)) with
  | ':' :: ret => trim (before " acquires ".toList ret)
  | _ => []

/-- Reads the type parameters in angle brackets, if they follow. -/
def typeParameters? (s : List Char) : Option (List (List Char) × List Char) :=
  match trimStart s with
  | '<' :: r => (enclosed? r).map fun p => (splitOutside ',' p.1, trimStart p.2)
  | r => some ([], r)

/-- Reads a function header into a block without body lines. -/
def functionHeader? (line : List Char) : Option FunctionListing := do
  let (modifiers, name, s) ← functionStart? line
  if String.ofList name ∈ otherKeywords then none
  else do
    let (typeParams, s) ← typeParameters? s
    let s ← afterPrefix? ['('] s
    let (params, s) ← enclosed? s
    some {
      visibility := .ofModifiers (modifierWords modifiers)
      name := String.ofList name
      typeParameters := typeParams.map String.ofList
      parameters := (splitOutside ',' params).mapIdx parameter
      returnType := String.ofList (returnType s) }

/-! ### Kinds of headers -/

/-- The declarations that open a block. -/
inductive Heading where
  | moduleHeader | structHeader | functionHeader
deriving DecidableEq, Repr

/-- The kind of header that a line begins. A module path made of colons and dots alone is a header,
though it names no module. -/
def heading? (line : List Char) : Option Heading :=
  if (structParts? line).isSome then some .structHeader
  else if (functionStart? line).isSome then some .functionHeader
  else if (modulePath? line).isSome then some .moduleHeader
  else none

/-- Whether a line begins a struct or a function, and so ends the block before it. -/
def opensBlock (line : List Char) : Bool :=
  (structParts? line).isSome || (functionStart? line).isSome

end PseudoMove.Listing
