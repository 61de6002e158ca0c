import ApiDocs.Json
import ApiDocs.Number.Reading
import ApiDocs.Proofs.Number
import ApiDocs.Proofs.Text.Pattern
import Mathlib.Data.List.TakeWhile

/-!
# Reading JSON text

A reader of JSON text (`Json.read?`): blanks between tokens, all escapes of strings with pairs of
codes for characters outside the basic plane, and numbers with or without fraction and exponent.
What is written for a value is read as that value, if its numbers are integers (`read?_write`). The
reader descends into a value with as much fuel as the text is long, which is enough because the text
of each item is a proper part of the text of its list (`value?_chars`).
-/

namespace ApiDocs

open Text

namespace Json

/-! ## Strings -/

/-- A part of a string: a character, or the number in an escape. -/
inductive Part where
  | char (c : Char)
  | code (n : Nat)

/-- The character that a letter stands for behind a backslash. -/
def unescape? : Char → Option Char
  | '"' => some '"'
  | '\\' => some '\\'
  | '/' => some '/'
  | 'b' => some '\x08'
  | 'f' => some '\x0c'
  | 'n' => some '\n'
  | 'r' => some '\r'
  | 't' => some '\t'
  | _ => none

/-- The value of a hexadecimal digit in either case. -/
def hexValue? (c : Char) : Option Nat :=
  if c.isDigit then some (c.toNat - '0'.toNat)
  else if 'a' ≤ c ∧ c ≤ 'f' then some (c.toNat - 'a'.toNat + 10)
  else if 'A' ≤ c ∧ c ≤ 'F' then some (c.toNat - 'A'.toNat + 10)
  else none

/-- The number of hexadecimal digits. -/
def code? (digits : List Char) : Option Nat :=
  digits.foldlM (fun n c => (hexValue? c).map (16 * n + ·)) 0

/-- The parts of a string up to the closing quote, and what stands after it. -/
def parts? : List Char → Option (List Part × List Char)
  | [] => none
  | c :: rest =>
    if c = '"' then some ([], rest)
    else if c = '\\' then
      match rest with
      | 'u' :: x :: y :: z :: w :: rest =>
        (code? [x, y, z, w]).bind fun n =>
          (parts? rest).map fun found => (.code n :: found.1, found.2)
      | letter :: rest =>
        (unescape? letter).bind fun c =>
          (parts? rest).map fun found => (.char c :: found.1, found.2)
      | [] => none
    else if c.toNat < 0x20 then none
    else (parts? rest).map fun found => (.char c :: found.1, found.2)

/-- The characters of parts. Of the codes that are kept for pairs, a first and a second one make up
a character, and none stands alone. -/
def characters? : List Part → Option (List Char)
  | [] => some []
  | .char c :: parts => (characters? parts).map (c :: ·)
  | .code n :: parts =>
    if 0xD800 ≤ n ∧ n < 0xDC00 then
      match parts with
      | .code m :: parts =>
        if 0xDC00 ≤ m ∧ m < 0xE000 then
          (characters? parts).map (Char.ofNat (0x10000 + (n - 0xD800) * 0x400 + (m - 0xDC00)) :: ·)
        else none
      | _ => none
    else if 0xDC00 ≤ n ∧ n < 0xE000 then none
    else (characters? parts).map (Char.ofNat n :: ·)

/-- The string after an opening quote, and what stands after the closing one. -/
def string? (text : List Char) : Option (String × List Char) :=
  (parts? text).bind fun found => (characters? found.1).map fun chars => (.ofList chars, found.2)

/-! ## Numbers -/

/-- The characters of numbers. -/
def isNumberChar (c : Char) : Bool :=
  c.isDigit || c == '-' || c == '+' || c == '.' || c == 'e' || c == 'E'

/-- One or more digits without superfluous zeros. -/
def isWhole (digits : List Char) : Bool :=
  !digits.isEmpty && (digits.length == 1 || digits.head? != some '0')

/-- Nothing, or an exponent. -/
def isExponent : List Char → Bool
  | [] => true
  | mark :: rest => (mark == 'e' || mark == 'E') && (readDigits? (splitSign rest).2).isSome

/-- A fraction, an exponent, or both. -/
def isFraction : List Char → Bool
  | '.' :: rest =>
    !(rest.takeWhile Char.isDigit).isEmpty && isExponent (rest.dropWhile Char.isDigit)
  | rest => isExponent rest

/-- The number of a token. -/
def numeral? (token : List Char) : Option Numeral :=
  let negative := token.head? == some '-'
  let body := if negative then token.tail else token
  let whole := body.takeWhile Char.isDigit
  let rest := body.dropWhile Char.isDigit
  if !isWhole whole then none
  else if rest.isEmpty then
    some (.integer (if negative then -(digitsValue whole : Int) else digitsValue whole))
  else if isFraction rest then (Binary64.read? token).map .float
  else none

/-- The number that the text begins with, and the rest. -/
def number? (text : List Char) : Option (Value × List Char) :=
  (numeral? (text.takeWhile isNumberChar)).map fun n => (.number n, text.dropWhile isNumberChar)

/-! ## Values -/

/-- The blanks between tokens. -/
def isSpace (c : Char) : Bool := c == ' ' || c == '\t' || c == '\n' || c == '\r'

/-- The text without the blanks before it. -/
def skip (text : List Char) : List Char := text.dropWhile isSpace

/-- The word that the text begins with, and the rest. -/
def word? (text : List Char) : Option (Value × List Char) :=
  ((after? "null".toList text).map fun rest => (.null, rest))
    |>.or ((after? "true".toList text).map fun rest => (.flag true, rest))
    |>.or ((after? "false".toList text).map fun rest => (.flag false, rest))

section

variable {α : Type} (element : List Char → Option (α × List Char)) (close : Char)

/-- One or more elements with commas between them, up to the closing character. -/
def separated? : Nat → List Char → Option (List α × List Char)
  | 0, _ => none
  | fuel + 1, text =>
    (element text).bind fun found =>
      match skip found.2 with
      | [] => none
      | c :: rest =>
        if c = ',' then (separated? fuel rest).map fun more => (found.1 :: more.1, more.2)
        else if c = close then some ([found.1], rest)
        else none

/-- The elements after an opening character, of which there may be none. -/
def enclosed? (fuel : Nat) (text : List Char) : Option (List α × List Char) :=
  match after? [close] (skip text) with
  | some rest => some ([], rest)
  | none => separated? element close fuel text

end

/-- A key, a colon and a value. -/
def field? (value : List Char → Option (Value × List Char)) (text : List Char) :
    Option ((String × Value) × List Char) :=
  (after? ['"'] (skip text)).bind fun rest =>
    (string? rest).bind fun key =>
      (after? [':'] (skip key.2)).bind fun rest =>
        (value rest).map fun found => ((key.1, found.1), found.2)

/-- The value that the text begins with, and the rest. -/
def value? : Nat → List Char → Option (Value × List Char)
  | 0, _ => none
  | fuel + 1, text =>
    match skip text with
    | [] => none
    | c :: rest =>
      if c = '"' then (string? rest).map fun found => (.text found.1, found.2)
      else if c = '[' then
        (enclosed? (value? fuel) ']' fuel rest).map fun found => (.list found.1, found.2)
      else if c = '\x7b' then
        (enclosed? (field? (value? fuel)) '\x7d' fuel rest).map fun found =>
          (.record found.1, found.2)
      else (word? (c :: rest)).or (number? (c :: rest))

/-- The value that a text holds, with nothing but blanks after it. -/
def read? (text : String) : Option Value :=
  (value? text.toList.length text.toList).bind fun found =>
    if (skip found.2).isEmpty then some found.1 else none

/-! ## Written strings -/

/-- The part that a character is written as. -/
def partOf (c : Char) : Part :=
  if c.toNat < 0x20 ∧ c ∉ ['\n', '\r', '\t', '\x08', '\x0c'] then .code c.toNat else .char c

theorem code?_hexDigits : ∀ n < 0x20,
    code? ['0', '0', hexDigit (n / 16), hexDigit (n % 16)] = some n := by
  decide

/-- An escaped character is read as the part that it was written for. -/
theorem parts?_escape (c : Char) (rest : List Char) :
    parts? (escape c ++ rest) =
      (parts? rest).map fun found => (partOf c :: found.1, found.2) := by
  rw [escape.eq_def]
  split
  all_goals try rfl
  rename_i quote backslash feed ret tab bell form
  split
  · rename_i control
    have special : c ∉ ['\n', '\r', '\t', '\x08', '\x0c'] := by
      simp only [List.mem_cons, List.not_mem_nil, or_false, not_or]
      exact ⟨feed, ret, tab, bell, form⟩
    have read := code?_hexDigits c.toNat control
    rw [partOf, if_pos ⟨control, special⟩]
    change ((code? ['0', '0', hexDigit (c.toNat / 16), hexDigit (c.toNat % 16)]).bind _) = _
    rw [read]
    rfl
  · rename_i printed
    rw [partOf, if_neg fun both => printed both.1, List.singleton_append, parts?.eq_def]
    dsimp only
    rw [if_neg quote, if_neg backslash, if_neg printed]

/-- An escaped text is read up to the quote that ends it, since no escape has a bare quote in it. -/
theorem parts?_flatMap_escape (chars rest : List Char) :
    parts? (chars.flatMap escape ++ '"' :: rest) = some (chars.map partOf, rest) := by
  induction chars with
  | nil =>
      rw [List.flatMap_nil, List.nil_append, parts?.eq_def]
      rfl
  | cons c chars ih =>
      rw [List.flatMap_cons, List.append_assoc, parts?_escape, ih]
      rfl

/-- The parts of a text make up its characters again. -/
theorem characters?_map_partOf (chars : List Char) :
    characters? (chars.map partOf) = some chars := by
  induction chars with
  | nil => rfl
  | cons c chars ih =>
      rw [List.map_cons, partOf]
      split
      · rename_i special
        have noFirst : ¬ (0xD800 ≤ c.toNat ∧ c.toNat < 0xDC00) := by omega
        have noSecond : ¬ (0xDC00 ≤ c.toNat ∧ c.toNat < 0xE000) := by omega
        rw [characters?.eq_def]
        dsimp only
        rw [if_neg noFirst, if_neg noSecond, ih, Char.ofNat_toNat]
        rfl
      · rw [characters?, ih]
        rfl

/-- A string is read after its opening quote. -/
theorem string?_escaped (s : String) (rest : List Char) :
    string? (s.toList.flatMap escape ++ '"' :: rest) = some (s, rest) := by
  rw [string?, parts?_flatMap_escape, Option.bind_some, characters?_map_partOf, Option.map_some,
    String.ofList_toList]

/-! ## Written integers -/

/-- A positive number has no zero in front. -/
theorem head?_toDigits {n : Nat} (positive : 0 < n) : (Nat.toDigits 10 n).head? ≠ some '0' := by
  have digit : ∀ d < 10, 0 < d → Nat.digitChar d ≠ '0' := by decide
  induction n using Nat.strongRecOn with
  | ind n ih =>
      rw [Nat.toDigits_eq_if (by decide)]
      split
      · rename_i small
        exact fun same => digit n small positive (Option.some.inj same)
      · rename_i large
        have shorter := ih (n / 10) (by omega) (by omega)
        obtain ⟨c, rest, digits⟩ := List.exists_cons_of_ne_nil (Nat.toDigits_ne_nil (n := n / 10))
        rw [digits] at shorter ⊢
        exact shorter

/-- Digits of a number are what the grammar takes for the whole part of one. -/
theorem isWhole_toDigits (n : Nat) : isWhole (Nat.toDigits 10 n) = true := by
  cases n with
  | zero => rfl
  | succ n =>
      have first := bne_iff_ne.mpr (head?_toDigits n.succ_pos)
      rw [isWhole, first, Bool.or_true, Bool.and_true, Bool.not_eq_true',
        List.isEmpty_eq_false_iff]
      exact Nat.toDigits_ne_nil

theorem takeWhile_toDigits (n : Nat) :
    (Nat.toDigits 10 n).takeWhile Char.isDigit = Nat.toDigits 10 n :=
  List.takeWhile_eq_self_iff.mpr fun _ among => isDigit_of_mem_digits among

theorem dropWhile_toDigits (n : Nat) : (Nat.toDigits 10 n).dropWhile Char.isDigit = [] :=
  List.dropWhile_eq_nil_iff.mpr fun _ among => isDigit_of_mem_digits among

theorem toList_toString_ofNat (n : Nat) : (toString (Int.ofNat n)).toList = Nat.toDigits 10 n :=
  Nat.toList_repr

theorem toList_toString_negSucc (n : Nat) :
    (toString (Int.negSucc n)).toList = '-' :: Nat.toDigits 10 (n + 1) := by
  change ("-" ++ (n + 1).repr).toList = _
  rw [String.toList_append, Nat.toList_repr]
  rfl

/-- The text of an integer is read as that integer. -/
theorem numeral?_toString (n : Int) : numeral? (toString n).toList = some (.integer n) := by
  cases n with
  | ofNat n =>
      have unsigned : ((Nat.toDigits 10 n).head? == some '-') = false := by
        rw [beq_eq_false_iff_ne]
        intro signed
        have digit := isDigit_of_mem_digits (List.mem_of_mem_head? signed)
        cases digit
      rw [toList_toString_ofNat, numeral?]
      simp only [unsigned, Bool.false_eq_true, if_false, takeWhile_toDigits, dropWhile_toDigits,
        isWhole_toDigits, digitsValue_toDigits, Bool.not_true, List.isEmpty_nil, if_true]
      rfl
  | negSucc n =>
      rw [toList_toString_negSucc, numeral?]
      simp only [List.head?_cons, BEq.rfl, if_true, List.tail_cons, takeWhile_toDigits,
        dropWhile_toDigits, isWhole_toDigits, digitsValue_toDigits, Bool.not_true,
        Bool.false_eq_true, if_false, List.isEmpty_nil]
      rfl

/-- The text of an integer has only characters of numbers, so that reading it goes to its end. -/
theorem isNumberChar_of_mem_toString {n : Int} {c : Char} (among : c ∈ (toString n).toList) :
    isNumberChar c = true := by
  have digit : ∀ {m : Nat}, c ∈ Nat.toDigits 10 m → isNumberChar c = true := by
    intro m inDigits
    rw [isNumberChar, isDigit_of_mem_digits inDigits]
    rfl
  cases n with
  | ofNat n =>
      rw [toList_toString_ofNat] at among
      exact digit among
  | negSucc n =>
      rw [toList_toString_negSucc] at among
      rcases List.mem_cons.mp among with rfl | later
      · rfl
      · exact digit later

/-- An integer begins with a digit or a minus sign. -/
theorem exists_head_toString (n : Int) :
    ∃ c rest, (toString n).toList = c :: rest ∧
      ∀ d, d.isDigit = false → d ≠ '-' → c ≠ d := by
  cases n with
  | ofNat n =>
      obtain ⟨c, rest, digits⟩ := List.exists_cons_of_ne_nil (Nat.toDigits_ne_nil (n := n))
      refine ⟨c, rest, (toList_toString_ofNat n).trans digits, fun d noDigit _ same => ?_⟩
      have digit : c.isDigit = true := isDigit_of_mem_digits (digits ▸ List.mem_cons_self)
      rw [same, noDigit] at digit
      cases digit
  | negSucc n => exact ⟨'-', _, toList_toString_negSucc n, fun d _ noSign => Ne.symm noSign⟩

/-- A number is read up to a character that cannot be part of one. -/
theorem number?_toString (n : Int) {rest : List Char} (ends : Pattern.Stops isNumberChar rest) :
    number? ((toString n).toList ++ rest) = some (.number (.integer n), rest) := by
  have token : ((toString n).toList ++ rest).takeWhile isNumberChar = (toString n).toList :=
    Pattern.takeWhile_append_of_stops (fun _ => isNumberChar_of_mem_toString) ends
  have left : ((toString n).toList ++ rest).dropWhile isNumberChar = rest := by
    have whole := List.takeWhile_append_dropWhile (p := isNumberChar)
      (l := (toString n).toList ++ rest)
    rw [token] at whole
    exact List.append_cancel_left whole
  rw [number?, token, left, numeral?_toString]
  rfl

/-! ## Written lists and records -/

section Spaces

variable {text : List Char}

theorem isSpace_of_mem_newline {level : Nat} : ∀ c ∈ newline level, isSpace c = true := by
  intro c among
  rcases List.mem_cons.mp among with rfl | later
  · rfl
  · rw [List.eq_of_mem_replicate later]
    rfl

theorem skip_append {blanks : List Char} (all : ∀ c ∈ blanks, isSpace c = true) :
    skip (blanks ++ text) = skip text :=
  List.dropWhile_append_of_pos all

theorem skip_cons {c : Char} (solid : isSpace c = false) : skip (c :: text) = c :: text := by
  rw [skip, List.dropWhile_cons_of_neg]
  rw [solid]
  exact Bool.false_ne_true

/-- Blanks before a value do not matter. -/
theorem value?_append {blanks : List Char} (all : ∀ c ∈ blanks, isSpace c = true) (fuel : Nat) :
    value? fuel (blanks ++ text) = value? fuel text := by
  cases fuel with
  | zero => rfl
  | succ fuel => rw [value?, value?, skip_append all]

theorem value?_quote (fuel : Nat) :
    value? (fuel + 1) ('"' :: text) =
      (string? text).map fun found => (.text found.1, found.2) := by
  rw [value?, skip_cons rfl]
  rfl

theorem value?_bracket (fuel : Nat) :
    value? (fuel + 1) ('[' :: text) =
      (enclosed? (value? fuel) ']' fuel text).map fun found => (.list found.1, found.2) := by
  rw [value?, skip_cons rfl]
  rfl

theorem value?_brace (fuel : Nat) :
    value? (fuel + 1) ('\x7b' :: text) =
      (enclosed? (field? (value? fuel)) '\x7d' fuel text).map fun found =>
        (.record found.1, found.2) := by
  rw [value?, skip_cons rfl]
  rfl

theorem stops_newline (level : Nat) : Pattern.Stops isNumberChar (newline level ++ text) :=
  .cons rfl _

end Spaces

section Enclosed

variable {α : Type}

/-- One or more elements between brackets, each on a line of its own. -/
def enclosed (opening close : Char) (level : Nat) (write : α → List Char) (x : α) (xs : List α) :
    List Char :=
  opening :: (newline (level + 1) ++ (write x ++
    (xs.flatMap (fun y => ',' :: (newline (level + 1) ++ write y)) ++ (newline level ++ [close]))))

/-- The elements are shorter than the whole, and fewer than its characters. -/
theorem length_enclosed (opening close : Char) (level : Nat) (write : α → List Char) (x : α)
    (xs : List α) :
    (∀ y ∈ x :: xs, (write y).length < (enclosed opening close level write x xs).length) ∧
      xs.length + 1 < (enclosed opening close level write x xs).length := by
  have within : ∀ ys : List α, ys.length ≤
      (ys.flatMap fun y => ',' :: (newline (level + 1) ++ write y)).length ∧
      ∀ y ∈ ys, (write y).length ≤
        (ys.flatMap fun y => ',' :: (newline (level + 1) ++ write y)).length := by
    intro ys
    induction ys with
    | nil => exact ⟨Nat.le_refl _, List.forall_mem_nil _⟩
    | cons y ys ih =>
        rw [List.flatMap_cons, List.length_append, List.length_cons, List.length_cons,
          List.length_append]
        refine ⟨by omega, List.forall_mem_cons.mpr ⟨by omega, fun z later => ?_⟩⟩
        have := ih.2 z later
        omega
  have total : (enclosed opening close level write x xs).length =
      (newline (level + 1)).length + (write x).length + (newline level).length + 2 +
        (xs.flatMap fun y => ',' :: (newline (level + 1) ++ write y)).length := by
    simp only [enclosed, List.length_cons, List.length_append, List.length_nil]
    omega
  obtain ⟨count, each⟩ := within xs
  rw [total]
  refine ⟨List.forall_mem_cons.mpr ⟨by omega, fun y later => ?_⟩, by omega⟩
  have := each y later
  omega

variable {element : List Char → Option (α × List Char)} {close : Char} {write : α → List Char}
  {level : Nat}

/-- Elements that are written one below the other are read one after the other. The bound has to
exceed their number. -/
theorem separated?_written (solid : isSpace close = false) (notComma : close ≠ ',') {x : α}
    {xs : List α}
    (reads : ∀ y ∈ x :: xs, ∀ rest, Pattern.Stops isNumberChar rest →
      element (newline (level + 1) ++ (write y ++ rest)) = some (y, rest))
    {fuel : Nat} (enough : xs.length < fuel) (rest : List Char) :
    separated? element close fuel (newline (level + 1) ++ (write x ++
      (xs.flatMap (fun y => ',' :: (newline (level + 1) ++ write y)) ++
        (newline level ++ close :: rest)))) = some (x :: xs, rest) := by
  induction xs generalizing x fuel with
  | nil =>
      obtain ⟨fuel, rfl⟩ := Nat.exists_eq_add_one_of_ne_zero (Nat.ne_of_gt enough)
      rw [List.flatMap_nil, List.nil_append, separated?,
        reads x List.mem_cons_self _ (stops_newline level), Option.bind_some,
        skip_append isSpace_of_mem_newline, skip_cons solid]
      dsimp only
      rw [if_neg notComma, if_pos rfl]
  | cons y ys ih =>
      obtain ⟨fuel, rfl⟩ :=
        Nat.exists_eq_add_one_of_ne_zero (Nat.ne_of_gt (Nat.zero_lt_of_lt enough))
      have later := ih (fun z among => reads z (List.mem_cons_of_mem _ among))
        (Nat.lt_of_succ_lt_succ enough)
      rw [List.flatMap_cons, List.cons_append, List.cons_append, separated?,
        reads x List.mem_cons_self _ (.cons rfl _), Option.bind_some, skip_cons rfl]
      dsimp only
      rw [if_pos rfl, List.append_assoc, List.append_assoc, later]
      rfl

/-- What stands between brackets is read element by element. -/
theorem enclosed?_written (opening close : Char) (solid : isSpace close = false)
    (notComma : close ≠ ',') {x : α} {xs : List α}
    (reads : ∀ y ∈ x :: xs, ∀ rest, Pattern.Stops isNumberChar rest →
      element (newline (level + 1) ++ (write y ++ rest)) = some (y, rest))
    {c : Char} (first : (write x).head? = some c) (solidFirst : isSpace c = false)
    (differs : c ≠ close) {fuel : Nat} (enough : xs.length < fuel) (rest : List Char) :
    enclosed? element close fuel ((enclosed opening close level write x xs).tail ++ rest) =
      some (x :: xs, rest) := by
  have whole := separated?_written solid notComma reads enough rest
  have shape : (enclosed opening close level write x xs).tail ++ rest =
      newline (level + 1) ++ (write x ++
        (xs.flatMap (fun y => ',' :: (newline (level + 1) ++ write y)) ++
          (newline level ++ close :: rest))) := by
    simp [enclosed]
  obtain ⟨later, begins⟩ : ∃ later, write x = c :: later := by
    cases given : write x with
    | nil =>
        rw [given] at first
        cases first
    | cons d later =>
        rw [given] at first
        cases first
        exact ⟨later, rfl⟩
  rw [shape, enclosed?, whole, skip_append isSpace_of_mem_newline, begins, List.cons_append,
    skip_cons solidFirst, after?, if_neg (Ne.symm differs)]

end Enclosed

/-! ## Written values -/

end Json

namespace Value

mutual

/-- All numbers in the value are integers. -/
def isIntegral : Value → Bool
  | .null | .text _ | .flag _ => true
  | .number (.integer _) => true
  | .number (.float _) => false
  | .list items => itemsIntegral items
  | .record fields => fieldsIntegral fields

/-- All numbers in the items are integers. -/
def itemsIntegral : List Value → Bool
  | [] => true
  | item :: items => isIntegral item && itemsIntegral items

/-- All numbers in the fields are integers. -/
def fieldsIntegral : List (String × Value) → Bool
  | [] => true
  | (_, value) :: fields => isIntegral value && fieldsIntegral fields

end

/-- All numbers of a list are integers if those of each item are. -/
theorem itemsIntegral_iff {items : List Value} :
    itemsIntegral items = true ↔ ∀ item ∈ items, item.isIntegral = true := by
  induction items with
  | nil => exact ⟨fun _ => List.forall_mem_nil _, fun _ => rfl⟩
  | cons item items ih => rw [itemsIntegral, Bool.and_eq_true, ih, List.forall_mem_cons]

theorem fieldsIntegral_iff {fields : List (String × Value)} :
    fieldsIntegral fields = true ↔ ∀ field ∈ fields, field.2.isIntegral = true := by
  induction fields with
  | nil => exact ⟨fun _ => List.forall_mem_nil _, fun _ => rfl⟩
  | cons field fields ih =>
      obtain ⟨key, value⟩ := field
      rw [fieldsIntegral, Bool.and_eq_true, ih, List.forall_mem_cons]

end Value

namespace Json

/-- Items after the first are written each after a comma, on a line of its own. -/
theorem itemChars_eq (level : Nat) (items : List Value) :
    itemChars level items =
      items.flatMap fun item => ',' :: (newline level ++ chars level item) := by
  induction items with
  | nil => rfl
  | cons item items ih => rw [itemChars, ih, List.flatMap_cons, List.cons_append]

/-- A field of a record. -/
def fieldText (level : Nat) (field : String × Value) : List Char :=
  quoted field.1 ++ (':' :: ' ' :: chars level field.2)

theorem fieldChars_eq (level : Nat) (fields : List (String × Value)) :
    fieldChars level fields =
      fields.flatMap fun field => ',' :: (newline level ++ fieldText level field) := by
  induction fields with
  | nil => rfl
  | cons field fields ih =>
      obtain ⟨key, value⟩ := field
      rw [fieldChars, ih, List.flatMap_cons, fieldText]
      simp

/-- A list that is not empty is written like everything that is enclosed. -/
theorem chars_list (level : Nat) (item : Value) (items : List Value) :
    chars level (.list (item :: items)) =
      enclosed '[' ']' level (chars (level + 1)) item items := by
  rw [chars, itemChars_eq, enclosed]
  simp

/-- A record that is not empty is written like everything that is enclosed. -/
theorem chars_record (level : Nat) (field : String × Value) (fields : List (String × Value)) :
    chars level (.record (field :: fields)) =
      enclosed '\x7b' '\x7d' level (fieldText (level + 1)) field fields := by
  rw [chars, fieldChars_eq, enclosed, fieldText]
  simp

/-- The text of a value begins neither with a blank nor with a closing bracket. -/
theorem exists_head_chars (level : Nat) (value : Value) (integral : value.isIntegral = true) :
    ∃ c, (chars level value).head? = some c ∧ isSpace c = false ∧ c ≠ ']' := by
  cases value with
  | null => exact ⟨'n', rfl, rfl, by decide⟩
  | text s => exact ⟨'"', rfl, rfl, by decide⟩
  | flag b =>
      cases b with
      | true => exact ⟨'t', rfl, rfl, by decide⟩
      | false => exact ⟨'f', rfl, rfl, by decide⟩
  | number n =>
      cases n with
      | float x => cases integral
      | integer n =>
          obtain ⟨c, rest, begins, other⟩ := exists_head_toString n
          refine ⟨c, congrArg List.head? begins, ?_, other ']' rfl (by decide)⟩
          simp [isSpace, other]
  | list items =>
      cases items with
      | nil => exact ⟨'[', rfl, rfl, by decide⟩
      | cons item items => exact ⟨'[', rfl, rfl, by decide⟩
  | record fields =>
      cases fields with
      | nil => exact ⟨'\x7b', rfl, rfl, by decide⟩
      | cons field fields => exact ⟨'\x7b', rfl, rfl, by decide⟩

/-- A field is read as its key and its value, given that the value is. -/
theorem field?_written {level fuel : Nat} {field : String × Value}
    (reads : ∀ rest, Pattern.Stops isNumberChar rest →
      value? fuel (chars level field.2 ++ rest) = some (field.2, rest)) {blanks : List Char}
    (all : ∀ c ∈ blanks, isSpace c = true) {rest : List Char}
    (ends : Pattern.Stops isNumberChar rest) :
    field? (value? fuel) (blanks ++ (fieldText level field ++ rest)) = some (field, rest) := by
  have space : value? fuel (' ' :: (chars level field.2 ++ rest)) = some (field.2, rest) := by
    have blank : ∀ c ∈ [' '], isSpace c = true := List.forall_mem_singleton.mpr rfl
    rw [← reads rest ends]
    exact value?_append blank fuel
  have shape : fieldText level field ++ rest =
      '"' :: (field.1.toList.flatMap escape ++
        '"' :: (':' :: ' ' :: (chars level field.2 ++ rest))) := by
    simp [fieldText, quoted]
  rw [field?, shape, skip_append all, skip_cons rfl, after?, if_pos rfl, after?, Option.bind_some,
    string?_escaped, Option.bind_some, skip_cons rfl, after?, if_pos rfl, after?, Option.bind_some,
    space]
  rfl

/-- An integer is no text, list or record, so it is read as a number. -/
theorem value?_toString (n : Int) (fuel : Nat) {rest : List Char}
    (ends : Pattern.Stops isNumberChar rest) :
    value? (fuel + 1) ((toString n).toList ++ rest) = some (.number (.integer n), rest) := by
  have read := number?_toString n ends
  obtain ⟨c, digits, begins, other⟩ := exists_head_toString n
  have word : word? (c :: (digits ++ rest)) = none := by
    simp [word?, after?, Ne.symm (other 'n' rfl (by decide)), Ne.symm (other 't' rfl (by decide)),
      Ne.symm (other 'f' rfl (by decide))]
  have solid : isSpace c = false := by simp [isSpace, other]
  rw [begins, List.cons_append] at read ⊢
  rw [value?, skip_cons solid]
  dsimp only
  rw [if_neg (other _ rfl (by decide)), if_neg (other _ rfl (by decide)),
    if_neg (other _ rfl (by decide)), word, Option.none_or, read]

section Nested

variable {fuel : Nat} (reads : ∀ {level : Nat} {value : Value} {rest : List Char},
  (chars level value).length ≤ fuel → value.isIntegral = true → Pattern.Stops isNumberChar rest →
    value? fuel (chars level value ++ rest) = some (value, rest))

include reads

/-- A list is read back if its items are. -/
theorem value?_list_chars {level : Nat} {items : List Value}
    (enough : (chars level (.list items)).length ≤ fuel + 1)
    (integral : (Value.list items).isIntegral = true) (rest : List Char) :
    value? (fuel + 1) (chars level (.list items) ++ rest) = some (.list items, rest) := by
  cases items with
  | nil => rfl
  | cons item items =>
      rw [chars_list] at enough ⊢
      obtain ⟨shorter, fewer⟩ := length_enclosed '[' ']' level (chars (level + 1)) item items
      have parts := Value.itemsIntegral_iff.mp integral
      have each : ∀ y ∈ item :: items, ∀ rest, Pattern.Stops isNumberChar rest →
          value? fuel (newline (level + 1) ++ (chars (level + 1) y ++ rest)) = some (y, rest) := by
        intro y among rest ends
        have within := shorter y among
        rw [value?_append isSpace_of_mem_newline]
        exact reads (by omega) (parts y among) ends
      obtain ⟨c, first, solid, differs⟩ :=
        exists_head_chars (level + 1) item (parts item List.mem_cons_self)
      have read := enclosed?_written '[' ']' rfl (by decide) each first solid differs
        (by omega : items.length < fuel) rest
      exact (value?_bracket fuel).trans (congrArg _ read)

/-- A record is read back if its fields are. -/
theorem value?_record_chars {level : Nat} {fields : Table Value}
    (enough : (chars level (.record fields)).length ≤ fuel + 1)
    (integral : (Value.record fields).isIntegral = true) (rest : List Char) :
    value? (fuel + 1) (chars level (.record fields) ++ rest) = some (.record fields, rest) := by
  cases fields with
  | nil => rfl
  | cons field fields =>
      rw [chars_record] at enough ⊢
      obtain ⟨shorter, fewer⟩ :=
        length_enclosed '\x7b' '\x7d' level (fieldText (level + 1)) field fields
      have parts := Value.fieldsIntegral_iff.mp integral
      have each : ∀ y ∈ field :: fields, ∀ rest, Pattern.Stops isNumberChar rest →
          field? (value? fuel) (newline (level + 1) ++ (fieldText (level + 1) y ++ rest)) =
            some (y, rest) := by
        intro y among rest ends
        have within := shorter y among
        have value : (chars (level + 1) y.2).length ≤ (fieldText (level + 1) y).length := by
          simp [fieldText]
          omega
        exact field?_written (fun rest ends => reads (by omega) (parts y among) ends)
          isSpace_of_mem_newline ends
      have read := enclosed?_written '\x7b' '\x7d' rfl (by decide) each rfl rfl (by decide)
        (by omega : fields.length < fuel) rest
      exact (value?_brace fuel).trans (congrArg _ read)

end Nested

/-- What is written for a value is read as the value, whatever follows it that is no part of a
number. -/
theorem value?_chars {fuel level : Nat} {value : Value} {rest : List Char}
    (enough : (chars level value).length ≤ fuel) (integral : value.isIntegral = true)
    (ends : Pattern.Stops isNumberChar rest) :
    value? fuel (chars level value ++ rest) = some (value, rest) := by
  induction fuel generalizing level value rest with
  | zero =>
      obtain ⟨c, first, _⟩ := exists_head_chars level value integral
      rw [List.length_eq_zero_iff.mp (Nat.le_zero.mp enough)] at first
      cases first
  | succ fuel ih =>
      cases value with
      | null => rfl
      | text s =>
          have shape : chars level (.text s) ++ rest =
              '"' :: (s.toList.flatMap escape ++ '"' :: rest) := by
            simp [chars, quoted]
          rw [shape, value?_quote, string?_escaped]
          rfl
      | flag b => cases b <;> rfl
      | number n =>
          cases n with
          | float x => cases integral
          | integer n => exact value?_toString n fuel ends
      | list items => exact value?_list_chars ih enough integral rest
      | record fields => exact value?_record_chars ih enough integral rest

/-- What is written for a value is read as that value. -/
theorem read?_write {value : Value} (integral : value.isIntegral = true) :
    read? (write value) = some value := by
  have whole : value? (chars 0 value).length (chars 0 value ++ []) = some (value, []) :=
    value?_chars (Nat.le_refl _) integral .nil
  rw [List.append_nil] at whole
  rw [read?, write, String.toList_ofList, whole]
  rfl

end Json

end ApiDocs
