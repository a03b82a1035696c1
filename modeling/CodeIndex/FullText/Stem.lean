/-!
# Stemming

Words are reduced to stems by the rules of Porter's algorithm for English, so that a
question finds the inflected forms of its words. Words are sequences of bytes; a byte that
is no ASCII letter counts as a consonant.
-/

namespace CodeIndex.FullText

/-- A search word, folded and encoded. -/
abbrev Word := List UInt8

namespace Stem

def letters (s : String) : Word :=
  s.toList.map fun c => c.toNat.toUInt8

def letter (c : Char) : UInt8 :=
  c.toNat.toUInt8

/-! ## Consonants and vowels -/

/-- A vowel letter; `y` is one where `withY` says so. -/
def isVowel (withY : Bool) (b : UInt8) : Bool :=
  (letters "aeiou").contains b || (withY && b == letter 'y')

/-- Which letters are consonants; `y` is one unless a consonant comes before it. -/
def consonants (afterConsonant : Bool) : Word → List Bool
  | [] => []
  | b :: w =>
    let here := !isVowel afterConsonant b
    here :: consonants here w

def turns : List Bool → Nat
  | false :: true :: rest => turns (true :: rest) + 1
  | _ :: rest => turns rest
  | [] => 0

/-- The measure of a word: its number of vowel sequences followed by consonants. -/
def measure (w : Word) : Nat :=
  turns (consonants false w)

/-- Holds a vowel; `y` is one anywhere but at the start. -/
def hasVowel : Word → Bool
  | [] => false
  | b :: w => isVowel false b || w.any (isVowel true)

/-- Ends in consonant, vowel and consonant, the last not `w`, `x` or `y`. -/
def endsShort (w : Word) : Bool :=
  !(w.getLast?.any (letters "wxy").contains)
    && (consonants false w).reverse.take 3 == [true, false, true]

/-! ## Endings -/

/-- The non-empty stem before an ending. -/
def before? (ending : Word) (w : Word) : Option Word :=
  if ending.length < w.length && ending.isSuffixOf w then some (w.take (w.length - ending.length))
  else none

/-- An ending and what replaces it. -/
abbrev Rule := String × String

/-- Applies the first rule whose ending the word has, if its stem satisfies `p`. -/
def replace (p : Word → Bool) (rules : List Rule) (w : Word) : Word :=
  match rules.findSome? fun (e, r) => (before? (letters e) w).map (·, letters r) with
  | some (stem, r) => if p stem then stem ++ r else w
  | none => w

def plural (w : Word) : Word :=
  match w.reverse with
  | 0x73 :: 0x65 :: rest =>
    let drop := (4 < w.length && rest.take 2 == letters "ss")
      || (3 < w.length && rest.head? == some (letter 'i'))
    if drop then rest.reverse else (0x65 :: rest).reverse
  | 0x73 :: b :: rest => if b == letter 's' then w else (b :: rest).reverse
  | _ => w

/-- What remains when a past tense or participle ending has been taken off a word. -/
def mend (w : Word) : Word :=
  match [("at", "ate"), ("bl", "ble"), ("iz", "ize")].findSome? fun (e, r) =>
      (before? (letters e) w).map (· ++ letters r) with
  | some mended => mended
  | none =>
    match w.reverse with
    | a :: b :: rest =>
      if a == b && !isVowel false a && !(letters "lsz").contains a then (b :: rest).reverse
      else if measure w == 1 && endsShort w then w ++ letters "e"
      else w
    | _ => w

def past (w : Word) : Word :=
  match before? (letters "eed") w with
  | some stem => if 0 < measure stem then stem ++ letters "ee" else w
  | none =>
    match (before? (letters "ed") w).orElse fun _ => before? (letters "ing") w with
    | some stem => if hasVowel stem then mend stem else w
    | none => w

/-- A final `y` after a stem with a vowel becomes `i`. -/
def finalY (w : Word) : Word :=
  match before? (letters "y") w with
  | some stem => if hasVowel stem then stem ++ letters "i" else w
  | none => w

def doubleRules : List Rule :=
  [("ational", "ate"), ("tional", "tion"), ("enci", "ence"), ("anci", "ance"), ("izer", "ize"),
    ("logi", "log"), ("bli", "ble"), ("alli", "al"), ("entli", "ent"), ("eli", "e"),
    ("ousli", "ous"), ("ization", "ize"), ("ation", "ate"), ("ator", "ate"), ("alism", "al"),
    ("iveness", "ive"), ("fulness", "ful"), ("ousness", "ous"), ("aliti", "al"),
    ("iviti", "ive"), ("biliti", "ble")]

def singleRules : List Rule :=
  [("ical", "ic"), ("ness", ""), ("icate", "ic"), ("iciti", "ic"), ("ful", ""), ("ative", ""),
    ("alize", "al")]

/-- Endings that are taken off long stems, up to `ion`. -/
def lastRules : List Rule :=
  [("al", ""), ("ance", ""), ("ence", ""), ("er", ""), ("ic", ""), ("able", ""), ("ible", ""),
    ("ant", ""), ("ement", ""), ("ment", ""), ("ent", ""), ("ou", ""), ("ism", ""), ("ate", ""),
    ("iti", ""), ("ous", ""), ("ive", ""), ("ize", "")]

/-- Takes the last ending off a long stem; `ion` only after `s` or `t`. -/
def last (w : Word) : Word :=
  match before? (letters "ion") w with
  | some stem =>
    if stem.getLast?.any (letters "st").contains && 1 < measure stem then stem else w
  | none => replace (fun stem => 1 < measure stem) lastRules w

/-- A final `e` goes from long stems. -/
def finalE (w : Word) : Word :=
  match before? (letters "e") w with
  | some stem =>
    if 1 < measure stem || (measure stem == 1 && !endsShort stem) then stem else w
  | none => w

/-- Of a final double `l` one goes from long stems. -/
def doubleL (w : Word) : Word :=
  match w.reverse with
  | 0x6c :: 0x6c :: rest =>
    let stem := (0x6c :: rest).reverse
    if 1 < measure stem then stem else w
  | _ => w

end Stem

/-- The stem of a word. Words of one or two bytes and of more than 64 are their own. -/
def stem (w : Word) : Word :=
  if w.length < 3 || 64 < w.length then w
  else
    let w := Stem.finalY (Stem.past (Stem.plural w))
    let w := Stem.replace (fun s => 0 < Stem.measure s) Stem.doubleRules w
    let w := Stem.replace (fun s => 0 < Stem.measure s) Stem.singleRules w
    Stem.doubleL (Stem.finalE (Stem.last w))

end CodeIndex.FullText
