/-!
Text as a sequence of code points. Sources may hold surrogates, and escapes in string literals may
name them one by one, so text is wider than `String`: a code point is either a character or a lone
surrogate.
-/

namespace QueryLint

inductive CodePoint where
  | scalar (char : Char)
  | surrogate (index : Fin 2048)
  deriving DecidableEq

namespace CodePoint

def toNat : CodePoint → Nat
  | .scalar char => char.toNat
  | .surrogate index => 0xD800 + index.val

/-- The code point of a number below `0x110000`; larger numbers give the null character. -/
def ofNat (code : Nat) : CodePoint :=
  if h : 0xD800 ≤ code ∧ code < 0xE000 then .surrogate ⟨code - 0xD800, by omega⟩
  else .scalar (Char.ofNat code)

def char? : CodePoint → Option Char
  | .scalar char => some char
  | .surrogate _ => none

def isDigit (point : CodePoint) : Bool := point.char?.any Char.isDigit

def isAlpha (point : CodePoint) : Bool := point.char?.any Char.isAlpha

def isAlphanum (point : CodePoint) : Bool := point.char?.any Char.isAlphanum

@[simp] theorem isDigit_scalar (char : Char) : (scalar char).isDigit = char.isDigit := rfl

@[simp] theorem isAlpha_scalar (char : Char) : (scalar char).isAlpha = char.isAlpha := rfl

@[simp] theorem isAlphanum_scalar (char : Char) : (scalar char).isAlphanum = char.isAlphanum := rfl

/-- Code points are ordered like their numbers. -/
instance : LT CodePoint := ⟨fun first second => first.toNat < second.toNat⟩

instance : DecidableLT CodePoint := fun first second =>
  inferInstanceAs (Decidable (first.toNat < second.toNat))

end CodePoint

instance : Coe Char CodePoint := ⟨.scalar⟩

abbrev Text := List CodePoint

namespace Text

def ofString (string : String) : Text :=
  string.toList.map .scalar

theorem ofString_injective {first second : String} (h : ofString first = ofString second) :
    first = second := by
  have hchars : first.toList = second.toList :=
    (List.map_inj_right fun _ _ hpoint => CodePoint.scalar.inj hpoint).mp h
  exact String.toList_inj.mp hchars

theorem ofString_append (first second : String) :
    ofString (first ++ second) = ofString first ++ ofString second := by
  rw [ofString, String.toList_append, List.map_append]
  rfl

/-- The text as a string, if it holds no surrogate. -/
def toString? (text : Text) : Option String :=
  (text.mapM CodePoint.char?).map String.ofList

/-- The characters of the text; surrogates are left out. -/
def asString (text : Text) : String := String.ofList (text.filterMap CodePoint.char?)

theorem asString_ofString (string : String) : (ofString string).asString = string := by
  rw [asString, ofString, List.filterMap_map]
  exact (congrArg String.ofList List.filterMap_some).trans String.ofList_toList

theorem ofString_asString {text : Text} (h : ∀ point ∈ text, point.char?.isSome) :
    ofString text.asString = text := by
  rw [asString, ofString, String.toList_ofList]
  induction text with
  | nil => rfl
  | cons point text ih =>
    obtain ⟨hpoint, htext⟩ := List.forall_mem_cons.mp h
    obtain ⟨char, hchar⟩ := Option.isSome_iff_exists.mp hpoint
    cases point with
    | scalar char => exact congrArg (CodePoint.scalar char :: ·) (ih htext)
    | surrogate index => cases hchar

end Text

instance : Coe String Text := ⟨Text.ofString⟩

end QueryLint
