/-
Numbers as text: printing in decimal and as two hexadecimal digits, and reading the way the standard does it, by
`strtol` and by formatted extraction from a string stream in the classic locale.

A number is scanned as an optional sign, in base 16 an optional `0x`, and the longest run of digits. A stream keeps its
`eofbit` and its `failbit`; an extraction from a stream that is not good does nothing but fail.
-/
import Mathlib.Data.List.TakeWhile
import Mathlib.Data.Nat.Digits.Lemmas
import Mathlib.Tactic

namespace Text

/-! ## Printing -/

def decimalDigits (n : Nat) : List Nat := if n = 0 then [0] else (Nat.digits 10 n).reverse

/-- `std::to_string` of an unsigned number. -/
def decimal (n : Nat) : List Char := (decimalDigits n).map Nat.digitChar

/-- `%02x` of a byte. -/
def hexByte (b : UInt8) : List Char := [Nat.digitChar (b.toNat / 16), Nat.digitChar (b.toNat % 16)]

/-! ## Scanning -/

/-- `isspace` -/
def isSpace (c : Char) : Bool := decide (c.toNat = 32 ∨ (9 ≤ c.toNat ∧ c.toNat ≤ 13))

def digitValue (c : Char) : Option Nat :=
  if 48 ≤ c.toNat ∧ c.toNat ≤ 57 then some (c.toNat - 48)
  else if 97 ≤ c.toNat ∧ c.toNat ≤ 102 then some (c.toNat - 87)
  else if 65 ≤ c.toNat ∧ c.toNat ≤ 70 then some (c.toNat - 55)
  else none

def digitOf (base : Nat) (c : Char) : Option Nat := (digitValue c).filter (· < base)

/-- The digits at the front of a text, and what follows them. -/
def takeDigits (base : Nat) : List Char → List Nat × List Char
  | [] => ([], [])
  | c :: cs =>
    match digitOf base c with
    | none => ([], c :: cs)
    | some d => (d :: (takeDigits base cs).1, (takeDigits base cs).2)

/-- A number as it is written: its sign and its digits. -/
structure Numeral where
  negative : Bool
  digits : List Nat
  deriving DecidableEq, Repr

def Numeral.magnitude (base : Nat) (x : Numeral) : Nat := Nat.ofDigits base x.digits.reverse

def Numeral.value (base : Nat) (x : Numeral) : Int := if x.negative then -(x.magnitude base : Int) else x.magnitude base

def sign : List Char → Bool × List Char
  | '-' :: cs => (true, cs)
  | '+' :: cs => (false, cs)
  | cs => (false, cs)

def dropRadix : List Char → List Char
  | '0' :: 'x' :: cs => cs
  | '0' :: 'X' :: cs => cs
  | cs => cs

/-- The numeral at the front of a text, and what follows it. -/
def scan (base : Nat) (text : List Char) : Numeral × List Char :=
  let (negative, text) := sign text
  let (digits, rest) := takeDigits base (if base = 16 then dropRadix text else text)
  (⟨negative, digits⟩, rest)

/-- `std::stoi`, `none` where it throws. -/
def stoi (text : List Char) : Option Int :=
  let x := (scan 10 (text.dropWhile isSpace)).1
  if x.digits = [] then none
  else if -2 ^ 31 ≤ x.value 10 ∧ x.value 10 < 2 ^ 31 then some (x.value 10)
  else none

/-! ## String streams -/

structure IStringStream where
  rest : List Char
  eof : Bool
  fail : Bool
  deriving DecidableEq, Repr

namespace IStringStream

def ofText (text : List Char) : IStringStream := ⟨text, false, false⟩

def good (s : IStringStream) : Bool := !s.eof && !s.fail

/-- The numeral of a formatted extraction, `none` if its sentry fails. -/
def extract (base : Nat) (s : IStringStream) : Option Numeral × IStringStream :=
  if s.good then
    match s.rest.dropWhile isSpace with
    | [] => (none, ⟨[], true, true⟩)
    | c :: cs =>
      let (x, rest) := scan base (c :: cs)
      (some x, ⟨rest, rest.isEmpty, false⟩)
  else (none, { s with fail := true })

/-- `iss >> std::hex >> value` on an `int`: without an extraction `value` keeps what it was. -/
def readHex (s : IStringStream) (value : Int) : Int × IStringStream :=
  match s.extract 16 with
  | (none, s) => (value, s)
  | (some x, s) =>
    if x.digits = [] then (0, { s with fail := true })
    else if x.value 16 < -2 ^ 31 then (-2 ^ 31, { s with fail := true })
    else if 2 ^ 31 ≤ x.value 16 then (2 ^ 31 - 1, { s with fail := true })
    else (x.value 16, s)

/-- `iss >> value` on a `uint32_t`, `none` if it fails; a negative number wraps. -/
def readUInt32 (s : IStringStream) : Option UInt32 × IStringStream :=
  match s.extract 10 with
  | (none, s) => (none, s)
  | (some x, s) =>
    if x.digits = [] ∨ 2 ^ 32 ≤ x.magnitude 10 then (none, { s with fail := true })
    else (some (UInt32.ofInt (x.value 10)), s)

/-- `std::getline(iss, token, delim)`, `none` if nothing is extracted; the delimiter is. -/
def getline (delim : Char) (s : IStringStream) : Option (List Char) × IStringStream :=
  if s.good then
    match s.rest.dropWhile (· ≠ delim) with
    | _ :: rest => (some (s.rest.takeWhile (· ≠ delim)), { s with rest := rest })
    | [] => if s.rest = [] then (none, ⟨[], true, true⟩) else (some s.rest, ⟨[], true, false⟩)
  else (none, { s with fail := true })

/-- `iss.ignore(1, delim)`: one character is dropped, whatever it is. -/
def ignoreOne (s : IStringStream) : IStringStream :=
  if s.good then
    match s.rest with
    | [] => { s with eof := true }
    | _ :: cs => { s with rest := cs }
  else { s with fail := true }

end IStringStream

/-! ## Digits -/

theorem digitOf_digitChar {base d : Nat} (hd : d < base) (hb : base ≤ 16) :
    digitOf base (Nat.digitChar d) = some d := by
  have h16 : d < 16 := hd.trans_le hb
  have hvalue : digitValue (Nat.digitChar d) = some d := by
    interval_cases d <;> rfl
  rw [digitOf, hvalue, Option.filter_some, if_pos (decide_eq_true hd)]

theorem isSpace_digitChar {d : Nat} (hd : d < 16) : isSpace (Nat.digitChar d) = false := by
  interval_cases d <;> rfl

theorem sign_digitChar {d : Nat} (hd : d < 16) (cs : List Char) :
    sign (Nat.digitChar d :: cs) = (false, Nat.digitChar d :: cs) := by
  interval_cases d <;> rfl

/-- Two digits are not a `0x`. -/
theorem dropRadix_digitChar {d e : Nat} (hd : d < 16) (he : e < 16) (cs : List Char) :
    dropRadix (Nat.digitChar d :: Nat.digitChar e :: cs) = Nat.digitChar d :: Nat.digitChar e :: cs := by
  interval_cases d <;> first | rfl | (interval_cases e <;> rfl)

/-- What is printed after a number does not continue it. -/
def Ends (base : Nat) (rest : List Char) : Prop := ∀ c ∈ rest.head?, digitOf base c = none

theorem takeDigits_append {base : Nat} (hb : base ≤ 16) {rest : List Char} (hrest : Ends base rest) :
    ∀ {ds : List Nat}, (∀ d ∈ ds, d < base) → takeDigits base (ds.map Nat.digitChar ++ rest) = (ds, rest)
  | [], _ => by
    cases rest with
    | nil => rfl
    | cons c cs =>
      have hc : digitOf base c = none := hrest c rfl
      simp [takeDigits, hc]
  | d :: ds, h => by
    have hd := digitOf_digitChar (h d List.mem_cons_self) hb
    have htail := takeDigits_append hb hrest fun e he => h e (List.mem_cons_of_mem d he)
    rw [List.map_cons, List.cons_append, takeDigits, hd, htail]

theorem notMem_digitChar {base : Nat} (hb : base ≤ 16) {ds : List Nat} (hds : ∀ d ∈ ds, d < base) {c : Char}
    (hc : digitOf base c = none) : c ∉ ds.map Nat.digitChar := by
  intro hmem
  obtain ⟨d, hd, rfl⟩ := List.mem_map.1 hmem
  rw [digitOf_digitChar (hds d hd) hb] at hc
  cases hc

/-! ## Decimal numbers -/

theorem decimalDigits_lt {n d : Nat} (h : d ∈ decimalDigits n) : d < 10 := by
  unfold decimalDigits at h
  split at h
  · rw [List.mem_singleton.1 h]
    norm_num
  · exact Nat.digits_lt_base (by norm_num) (List.mem_reverse.1 h)

theorem decimalDigits_ne_nil (n : Nat) : decimalDigits n ≠ [] := by
  unfold decimalDigits
  split
  · exact List.cons_ne_nil _ _
  · rename_i hn
    rw [ne_eq, List.reverse_eq_nil_iff, Nat.digits_eq_nil_iff_eq_zero]
    exact hn

theorem magnitude_decimalDigits (n : Nat) (negative : Bool) : Numeral.magnitude 10 ⟨negative, decimalDigits n⟩ = n := by
  unfold Numeral.magnitude decimalDigits
  split
  · rename_i hn
    rw [hn]
    rfl
  · rw [List.reverse_reverse, Nat.ofDigits_digits]

/-- A printed number begins with a digit. -/
theorem decimal_cons (n : Nat) : ∃ d ds, d < 16 ∧ decimalDigits n = d :: ds := by
  obtain ⟨d, ds, hds⟩ := List.exists_cons_of_ne_nil (decimalDigits_ne_nil n)
  have hd := decimalDigits_lt (hds ▸ List.mem_cons_self)
  exact ⟨d, ds, by omega, hds⟩

theorem scan_decimal (n : Nat) {rest : List Char} (hrest : Ends 10 rest) :
    scan 10 (decimal n ++ rest) = (⟨false, decimalDigits n⟩, rest) := by
  have hdigits := takeDigits_append (by norm_num) hrest fun d hd => decimalDigits_lt (n := n) hd
  have hsign : sign (decimal n ++ rest) = (false, decimal n ++ rest) := by
    obtain ⟨d, ds, hd, hds⟩ := decimal_cons n
    rw [decimal, hds]
    exact sign_digitChar hd _
  unfold scan
  rw [hsign]
  simp only [Nat.reduceEqDiff, if_false]
  rw [decimal, hdigits]

/-- A number is told by its digits. -/
theorem decimal_injective : Function.Injective decimal := by
  intro m n h
  have hends : Ends 10 [] := by rintro c ⟨⟩
  have hscan := scan_decimal m hends
  rw [h, scan_decimal n hends] at hscan
  have hdigits : decimalDigits n = decimalDigits m := congrArg (·.1.digits) hscan
  rw [← magnitude_decimalDigits m false, ← hdigits, magnitude_decimalDigits]

/-- White space before a number is skipped, and only that. -/
theorem dropWhile_decimal {spaces : List Char} (hspaces : ∀ c ∈ spaces, isSpace c = true) (n : Nat) (rest : List Char) :
    (spaces ++ (decimal n ++ rest)).dropWhile isSpace = decimal n ++ rest := by
  obtain ⟨d, ds, hd, hds⟩ := decimal_cons n
  rw [List.dropWhile_append_of_pos hspaces, decimal, hds, List.map_cons, List.cons_append, List.dropWhile_cons_of_neg]
  rw [isSpace_digitChar hd]
  exact Bool.false_ne_true

/-- `stoi` reads back what `to_string` prints. -/
theorem stoi_decimal {n : Nat} (hn : n < 2 ^ 31) : stoi (decimal n) = some (n : Int) := by
  have hends : Ends 10 [] := by rintro c ⟨⟩
  have hspaces : ∀ c ∈ ([] : List Char), isSpace c = true := by rintro c ⟨⟩
  have hscan := scan_decimal n hends
  have hskip := dropWhile_decimal hspaces n []
  rw [List.append_nil] at hscan
  rw [List.nil_append, List.append_nil] at hskip
  have hvalue : Numeral.value 10 ⟨false, decimalDigits n⟩ = n := by
    rw [Numeral.value, magnitude_decimalDigits]
    rfl
  unfold stoi
  rw [hskip, hscan]
  simp only [hvalue, if_neg (decimalDigits_ne_nil n)]
  rw [if_pos (by omega)]

namespace IStringStream

/-- Extracting a printed number. -/
theorem readUInt32_decimal {spaces rest : List Char} (hspaces : ∀ c ∈ spaces, isSpace c = true) (n : UInt32)
    (hrest : Ends 10 rest) :
    readUInt32 ⟨spaces ++ (decimal n.toNat ++ rest), false, false⟩ = (some n, ⟨rest, rest.isEmpty, false⟩) := by
  have hskip := dropWhile_decimal hspaces n.toNat rest
  have hscan := scan_decimal n.toNat hrest
  have hvalue : Numeral.value 10 ⟨false, decimalDigits n.toNat⟩ = n.toNat := by
    rw [Numeral.value, magnitude_decimalDigits]
    rfl
  have hextract : extract 10 ⟨spaces ++ (decimal n.toNat ++ rest), false, false⟩ =
      (some ⟨false, decimalDigits n.toNat⟩, ⟨rest, rest.isEmpty, false⟩) := by
    unfold extract
    rw [if_pos (by rfl), hskip]
    obtain ⟨d, ds, hd, hds⟩ := decimal_cons n.toNat
    rw [decimal, hds, List.map_cons, List.cons_append] at hscan ⊢
    simp only
    rw [hscan]
  unfold readUInt32
  rw [hextract]
  have hback : UInt32.ofInt (n.toNat : Int) = n := by
    have hlt := n.toNat_lt
    apply UInt32.toNat_inj.1
    simp only [UInt32.ofInt, UInt32.toNat_ofNat']
    omega
  simp only [magnitude_decimalDigits, hvalue, hback]
  rw [if_neg]
  rintro (hnil | hlarge)
  · exact decimalDigits_ne_nil _ hnil
  · have := n.toNat_lt
    omega

/-- An extraction at the end of the text fails. -/
theorem readUInt32_end (eof : Bool) : ∃ s, readUInt32 ⟨[], eof, false⟩ = (none, s) := by
  cases eof
  · exact ⟨_, rfl⟩
  · exact ⟨_, rfl⟩

end IStringStream

/-! ## Progress -/

theorem length_takeDigits (base : Nat) : ∀ text : List Char,
    (takeDigits base text).1.length + (takeDigits base text).2.length = text.length
  | [] => rfl
  | c :: cs => by
    have ih := length_takeDigits base cs
    unfold takeDigits
    split
    · simp
    · simp only [List.length_cons]
      omega

theorem length_sign_le (text : List Char) : (sign text).2.length ≤ text.length := by
  unfold sign
  split <;> simp

theorem length_dropRadix_le (text : List Char) : (dropRadix text).length ≤ text.length := by
  unfold dropRadix
  split
  · simp only [List.length_cons]
    omega
  · simp only [List.length_cons]
    omega
  · exact le_refl _

/-- What follows a numeral is shorter by its digits at least. -/
theorem length_scan_le (base : Nat) (text : List Char) :
    (scan base text).1.digits.length + (scan base text).2.length ≤ text.length := by
  have hsign := length_sign_le text
  have hradix := length_dropRadix_le (sign text).2
  unfold scan
  simp only
  rw [length_takeDigits]
  split <;> omega

namespace IStringStream

theorem length_extract {base : Nat} {s s' : IStringStream} {x : Numeral} (h : s.extract base = (some x, s')) :
    x.digits.length + s'.rest.length ≤ s.rest.length := by
  unfold extract at h
  split at h
  · split at h
    · cases h
    · rename_i c cs hskip
      cases h
      have hscan := length_scan_le base (c :: cs)
      have hdrop := (List.dropWhile_sublist isSpace (l := s.rest)).length_le
      rw [hskip] at hdrop
      exact hscan.trans hdrop
  · cases h

/-- A successful extraction takes something from the text. -/
theorem readUInt32_rest_lt {s s' : IStringStream} {v : UInt32} (h : s.readUInt32 = (some v, s')) :
    s'.rest.length < s.rest.length := by
  unfold readUInt32 at h
  split at h
  · cases h
  · rename_i x s1 hx
    split at h
    · cases h
    · rename_i hok
      push Not at hok
      cases h
      have hlen := length_extract hx
      have hpos := List.length_pos_iff.2 hok.1
      omega

end IStringStream

/-- So does a line. -/
theorem IStringStream.getline_rest_lt {delim : Char} {s s' : IStringStream} {token : List Char}
    (h : s.getline delim = (some token, s')) : s'.rest.length < s.rest.length := by
  unfold getline at h
  split at h
  · split at h
    · rename_i c rest hdrop
      cases h
      have hlen := (List.dropWhile_sublist (fun c => decide (c ≠ delim)) (l := s.rest)).length_le
      rw [hdrop, List.length_cons] at hlen
      exact hlen
    · split at h
      · cases h
      · rename_i hne
        cases h
        exact List.length_pos_iff.2 hne
  · cases h

/-! ## Bytes in hexadecimal -/

/-- Extracting a printed byte. -/
theorem IStringStream.readHex_hexByte (b : UInt8) {rest : List Char} (hrest : Ends 16 rest) (value : Int) :
    readHex ⟨hexByte b ++ rest, false, false⟩ value = ((b.toNat : Int), ⟨rest, rest.isEmpty, false⟩) := by
  have hb := b.toNat_lt
  have hhi : b.toNat / 16 < 16 := by omega
  have hlo : b.toNat % 16 < 16 := by omega
  have hdigits : takeDigits 16 (hexByte b ++ rest) = ([b.toNat / 16, b.toNat % 16], rest) := by
    have hds : ∀ d ∈ [b.toNat / 16, b.toNat % 16], d < 16 := by simp [hhi, hlo]
    exact takeDigits_append (le_refl 16) hrest hds
  have hscan : scan 16 (hexByte b ++ rest) = (⟨false, [b.toNat / 16, b.toNat % 16]⟩, rest) := by
    unfold scan
    rw [hexByte, List.cons_append, List.cons_append, sign_digitChar hhi]
    simp only [if_true, dropRadix_digitChar hhi hlo]
    exact congrArg (fun r : List Nat × List Char => ((⟨false, r.1⟩ : Numeral), r.2)) hdigits
  have hextract : extract 16 ⟨hexByte b ++ rest, false, false⟩ =
      (some ⟨false, [b.toNat / 16, b.toNat % 16]⟩, ⟨rest, rest.isEmpty, false⟩) := by
    unfold extract
    rw [if_pos (by rfl), hexByte, List.cons_append, List.dropWhile_cons_of_neg (by simp [isSpace_digitChar hhi])]
    simp only
    rw [← List.cons_append, ← hexByte, hscan]
  have hvalue : Numeral.value 16 ⟨false, [b.toNat / 16, b.toNat % 16]⟩ = b.toNat := by
    simp only [Numeral.value, Numeral.magnitude, Bool.false_eq_true, if_false, List.reverse_cons, List.reverse_nil,
      List.nil_append, List.cons_append, Nat.ofDigits_cons, Nat.ofDigits_nil]
    omega
  unfold readHex
  rw [hextract]
  simp only [hvalue]
  rw [if_neg (by simp), if_neg (by omega), if_neg (by omega)]

/-! ## Numerals at the front of a text -/

/-- The ways to write a sign. -/
def IsSign (chars : List Char) (negative : Bool) : Prop :=
  (chars = [] ∧ negative = false) ∨ (chars = ['+'] ∧ negative = false) ∨ (chars = ['-'] ∧ negative = true)

/-- The text begins with the numeral: white space, a sign, digits, and behind them anything that is no digit. -/
structure Begins (text : List Char) (x : Numeral) (rest : List Char) : Prop where
  shape : ∃ spaces chars, text = spaces ++ (chars ++ (x.digits.map Nat.digitChar ++ rest)) ∧
    (∀ c ∈ spaces, isSpace c = true) ∧ IsSign chars x.negative
  digits_ne : x.digits ≠ []
  digits_lt : ∀ d ∈ x.digits, d < 10
  ends : Ends 10 rest

theorem sign_shape (text : List Char) : ∃ chars, text = chars ++ (sign text).2 ∧ IsSign chars (sign text).1 := by
  unfold sign
  split
  · exact ⟨['-'], rfl, .inr (.inr ⟨rfl, rfl⟩)⟩
  · exact ⟨['+'], rfl, .inr (.inl ⟨rfl, rfl⟩)⟩
  · exact ⟨[], rfl, .inl ⟨rfl, rfl⟩⟩

/-- In base ten a digit is written in one way. -/
theorem digitOf_ten {c : Char} {d : Nat} (h : digitOf 10 c = some d) : d < 10 ∧ c = Nat.digitChar d := by
  obtain ⟨hvalue, hlt⟩ := Option.filter_eq_some_iff.1 h
  have hlt : d < 10 := of_decide_eq_true hlt
  have hc : c.toNat = d + 48 := by
    unfold digitValue at hvalue
    split at hvalue
    · cases hvalue
      omega
    · split at hvalue
      · cases hvalue
        omega
      · split at hvalue
        · cases hvalue
          omega
        · cases hvalue
  refine ⟨hlt, ?_⟩
  rw [← Char.ofNat_toNat c, hc]
  interval_cases d <;> rfl

theorem takeDigits_ten : ∀ text : List Char,
    text = (takeDigits 10 text).1.map Nat.digitChar ++ (takeDigits 10 text).2 ∧
      (∀ d ∈ (takeDigits 10 text).1, d < 10) ∧ Ends 10 (takeDigits 10 text).2
  | [] => by
    refine ⟨rfl, ?_, ?_⟩
    · rintro d ⟨⟩
    · rintro c ⟨⟩
  | c :: cs => by
    obtain ⟨htext, hlt, hends⟩ := takeDigits_ten cs
    unfold takeDigits
    cases hc : digitOf 10 c with
    | none =>
      refine ⟨rfl, ?_, ?_⟩
      · rintro d ⟨⟩
      · rintro c' ⟨⟩
        exact hc
    | some d =>
      obtain ⟨hd, hchar⟩ := digitOf_ten hc
      refine ⟨?_, List.forall_mem_cons.2 ⟨hd, hlt⟩, hends⟩
      rw [List.map_cons, List.cons_append, ← htext, ← hchar]

/-- White space ends before a sign and before a digit, and the sign before the digits. -/
theorem dropWhile_sign {chars : List Char} {negative : Bool} {d : Nat} (hd : d < 16) (h : IsSign chars negative)
    (cs : List Char) : (chars ++ Nat.digitChar d :: cs).dropWhile isSpace = chars ++ Nat.digitChar d :: cs ∧
      sign (chars ++ Nat.digitChar d :: cs) = (negative, Nat.digitChar d :: cs) := by
  obtain ⟨rfl, rfl⟩ | ⟨rfl, rfl⟩ | ⟨rfl, rfl⟩ := h
  · refine ⟨List.dropWhile_cons_of_neg ?_, sign_digitChar hd cs⟩
    rw [isSpace_digitChar hd]
    exact Bool.false_ne_true
  · exact ⟨rfl, rfl⟩
  · exact ⟨rfl, rfl⟩

/-- `strtol` and the streams find the numeral at the front, and nothing else. -/
theorem scan_eq_iff {text rest : List Char} {x : Numeral} :
    scan 10 (text.dropWhile isSpace) = (x, rest) ∧ x.digits ≠ [] ↔ Begins text x rest := by
  constructor
  · rintro ⟨hscan, hne⟩
    obtain ⟨chars, hchars, hsign⟩ := sign_shape (text.dropWhile isSpace)
    obtain ⟨hdigits, hlt, hends⟩ := takeDigits_ten (sign (text.dropWhile isSpace)).2
    unfold scan at hscan
    simp only [Nat.reduceEqDiff, if_false] at hscan
    cases hscan
    refine ⟨⟨text.takeWhile isSpace, chars, ?_, fun c hc => List.mem_takeWhile_imp hc, hsign⟩, hne, hlt, hends⟩
    rw [← hdigits, ← hchars, List.takeWhile_append_dropWhile]
  · rintro ⟨⟨spaces, chars, rfl, hspaces, hsign⟩, hne, hlt, hends⟩
    refine ⟨?_, hne⟩
    obtain ⟨negative, digits⟩ := x
    obtain ⟨d, ds, rfl⟩ := List.exists_cons_of_ne_nil hne
    have hd : d < 16 := (hlt d List.mem_cons_self).trans (by norm_num)
    have hdigits := takeDigits_append (by norm_num) hends hlt
    obtain ⟨hdrop, hsign⟩ := dropWhile_sign hd hsign (ds.map Nat.digitChar ++ rest)
    rw [List.dropWhile_append_of_pos hspaces]
    simp only [List.map_cons, List.cons_append] at hdigits ⊢
    rw [hdrop]
    unfold scan
    rw [hsign]
    simp only [Nat.reduceEqDiff, if_false, hdigits]

/-- `stoi` succeeds on the texts that begin with a numeral in the range of an `int`. -/
theorem stoi_eq_some_iff {text : List Char} {n : Int} :
    stoi text = some n ↔
      ∃ x rest, Begins text x rest ∧ x.value 10 = n ∧ -2 ^ 31 ≤ n ∧ n < 2 ^ 31 := by
  unfold stoi
  simp only
  constructor
  · intro h
    split at h
    · cases h
    · rename_i hne
      split at h
      · rename_i hrange
        obtain rfl := Option.some.inj h
        exact ⟨_, _, scan_eq_iff.1 ⟨rfl, hne⟩, rfl, hrange⟩
      · cases h
  · rintro ⟨x, rest, hbegins, rfl, hrange⟩
    obtain ⟨hscan, hne⟩ := scan_eq_iff.2 hbegins
    rw [hscan]
    simp only
    rw [if_neg hne, if_pos hrange]

/-- A stream gives a `uint32_t` if its text begins with a numeral of 32 bits. -/
theorem IStringStream.readUInt32_ofText_iff {text : List Char} :
    (∃ v s, readUInt32 (ofText text) = (some v, s)) ↔ ∃ x rest, Begins text x rest ∧ x.magnitude 10 < 2 ^ 32 := by
  simp only [← scan_eq_iff]
  unfold readUInt32 extract
  rw [if_pos (by rfl), ofText]
  cases hskip : text.dropWhile isSpace with
  | nil =>
    refine iff_of_false ?_ ?_
    · rintro ⟨v, s, h⟩
      cases h
    · rintro ⟨x, rest, ⟨hscan, hne⟩, -⟩
      cases hscan
      exact hne rfl
  | cons c cs =>
    simp only
    split
    · rename_i hbad
      refine iff_of_false ?_ ?_
      · rintro ⟨v, s, h⟩
        cases h
      · rintro ⟨x, rest, ⟨hscan, hne⟩, hlt⟩
        rw [hscan] at hbad
        exact hbad.elim hne (not_le.2 hlt)
    · rename_i hgood
      push Not at hgood
      exact iff_of_true ⟨_, _, rfl⟩ ⟨_, _, ⟨rfl, hgood.1⟩, hgood.2⟩

/-! ## Pieces -/

/-- The pieces of a text between the delimiters, without an empty one at its end. -/
def split (delim : Char) : List Char → List (List Char)
  | [] => []
  | c :: cs =>
    if c = delim then [] :: split delim cs
    else
      match split delim cs with
      | [] => [[c]]
      | piece :: pieces => (c :: piece) :: pieces

section split

variable {delim : Char}

@[simp] theorem split_nil : split delim [] = [] := rfl

@[simp] theorem split_delim (cs : List Char) : split delim (delim :: cs) = [] :: split delim cs := by simp [split]

theorem split_append {piece : List Char} (h : delim ∉ piece) (cs : List Char) :
    split delim (piece ++ delim :: cs) = piece :: split delim cs := by
  induction piece with
  | nil => exact split_delim cs
  | cons c piece ih =>
    obtain ⟨hc, hpiece⟩ := List.ne_and_not_mem_of_not_mem_cons h
    rw [List.cons_append, split, if_neg hc.symm, ih hpiece]

theorem split_of_notMem {piece : List Char} (hne : piece ≠ []) (h : delim ∉ piece) : split delim piece = [piece] := by
  induction piece with
  | nil => exact absurd rfl hne
  | cons c piece ih =>
    obtain ⟨hc, hpiece⟩ := List.ne_and_not_mem_of_not_mem_cons h
    rw [split, if_neg hc.symm]
    cases piece with
    | nil => rfl
    | cons c' piece => rw [ih (List.cons_ne_nil _ _) hpiece]

/-- The first piece, as `getline` finds it. -/
theorem IStringStream.getline_cases (text : List Char) :
    (text = [] ∧ ∃ s, getline delim ⟨text, false, false⟩ = (none, s)) ∨
    (text ≠ [] ∧ delim ∉ text ∧ getline delim ⟨text, false, false⟩ = (some text, ⟨[], true, false⟩)) ∨
    ∃ piece cs, text = piece ++ delim :: cs ∧ delim ∉ piece ∧
      getline delim ⟨text, false, false⟩ = (some piece, ⟨cs, false, false⟩) := by
  have hsplit : text.takeWhile (· ≠ delim) ++ text.dropWhile (· ≠ delim) = text := List.takeWhile_append_dropWhile
  have hpiece : delim ∉ text.takeWhile (· ≠ delim) := fun hmem => by simpa using List.mem_takeWhile_imp hmem
  unfold getline
  rw [if_pos (by rfl)]
  cases hdrop : text.dropWhile (· ≠ delim) with
  | nil =>
    rw [hdrop, List.append_nil] at hsplit
    rw [hsplit] at hpiece
    by_cases hnil : text = []
    · subst hnil
      exact .inl ⟨rfl, _, rfl⟩
    · exact .inr (.inl ⟨hnil, hpiece, by simp [hnil]⟩)
  | cons c cs =>
    have hc : c = delim := by
      have := List.head?_dropWhile_not (fun c => decide (c ≠ delim)) text
      rw [hdrop] at this
      simpa using this
    subst hc
    refine .inr (.inr ⟨_, cs, ?_, hpiece, rfl⟩)
    rw [← hdrop]
    exact hsplit.symm

theorem split_cons (c : Char) (cs : List Char) : ∃ piece pieces, split delim (c :: cs) = piece :: pieces := by
  unfold split
  split
  · exact ⟨_, _, rfl⟩
  · split
    · exact ⟨_, _, rfl⟩
    · exact ⟨_, _, rfl⟩

/-- The pieces make up a text that does not end in a delimiter. -/
theorem intercalate_split :
    ∀ {text : List Char}, text.getLast? ≠ some delim → [delim].intercalate (split delim text) = text
  | [], _ => rfl
  | [c], h => by
    have hc : c ≠ delim := fun hc => h (congrArg some hc)
    rw [split, if_neg hc]
    rfl
  | c :: c' :: cs, h => by
    have ih : [delim].intercalate (split delim (c' :: cs)) = c' :: cs :=
      intercalate_split (by rwa [List.getLast?_cons_cons] at h)
    obtain ⟨piece, pieces, hsplit⟩ := @split_cons delim c' cs
    rw [hsplit] at ih
    rw [split]
    split
    · rename_i hc
      rw [hsplit, List.intercalate_cons_cons, ih, hc]
      rfl
    · rw [hsplit]
      simp only
      rw [← ih]
      cases pieces with
      | nil => rfl
      | cons piece' pieces => rfl

/-- Pieces that are not empty are found again in the text they make up. -/
theorem split_intercalate : ∀ {pieces : List (List Char)}, pieces ≠ [] →
    (∀ piece ∈ pieces, piece ≠ [] ∧ delim ∉ piece) → split delim ([delim].intercalate pieces) = pieces ∧
      ([delim].intercalate pieces).getLast? ≠ some delim
  | [], hne, _ => absurd rfl hne
  | [piece], _, h => by
    obtain ⟨hne, hdelim⟩ := h piece (List.mem_singleton_self _)
    rw [List.intercalate_singleton]
    exact ⟨split_of_notMem hne hdelim, fun hlast => hdelim (List.mem_of_getLast? hlast)⟩
  | piece :: piece' :: pieces, _, h => by
    obtain ⟨hpiece, htail⟩ := List.forall_mem_cons.1 h
    obtain ⟨hsplit, hlast⟩ := split_intercalate (List.cons_ne_nil _ _) htail
    have hne : [delim].intercalate (piece' :: pieces) ≠ [] := by
      intro hnil
      rw [hnil] at hsplit
      cases hsplit
    rw [List.intercalate_cons_cons, List.append_assoc, List.singleton_append, split_append hpiece.2, hsplit]
    refine ⟨rfl, ?_⟩
    rw [List.getLast?_append_of_ne_nil _ (List.cons_ne_nil _ _), List.getLast?_cons_of_ne_nil hne]
    exact hlast

theorem mem_intercalate {c : Char} : ∀ {pieces : List (List Char)}, c ∈ [delim].intercalate pieces →
    c = delim ∨ ∃ piece ∈ pieces, c ∈ piece
  | [], h => by cases h
  | [piece], h => by
    rw [List.intercalate_singleton] at h
    exact .inr ⟨piece, List.mem_singleton_self _, h⟩
  | piece :: piece' :: pieces, h => by
    rw [List.intercalate_cons_cons, List.mem_append, List.mem_append, List.mem_singleton] at h
    rcases h with (h | h) | h
    · exact .inr ⟨piece, List.mem_cons_self, h⟩
    · exact .inl h
    · rcases mem_intercalate h with h | ⟨p, hp, hc⟩
      · exact .inl h
      · exact .inr ⟨p, List.mem_cons_of_mem _ hp, hc⟩

end split

/-- Reading all of a list: every element is read. -/
theorem mapM_eq_some_iff {α β : Type} {f : α → Option β} {l : List α} {r : List β} :
    l.mapM f = some r ↔ l.map f = r.map some := by
  induction l generalizing r with
  | nil => cases r <;> simp
  | cons a l ih =>
    rw [List.mapM_cons, List.map_cons]
    cases r with
    | nil => simp [Option.bind_eq_some_iff]
    | cons b r =>
      rw [List.map_cons, List.cons.injEq, ← ih]
      cases f a with
      | none => simp
      | some b' => simp [Option.bind_eq_some_iff, and_comm]

end Text
