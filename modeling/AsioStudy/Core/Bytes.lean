import Mathlib.Data.List.TakeWhile
import Mathlib.Logic.Function.Basic

/-!
# AsioStudy.Core.Bytes

The parts of the C++ standard library that work on strings and maps. A `char` is a
byte and a `std::string` a list of bytes; `bytes "GET "` is the string literal.

`isspace` is the C locale's. `stoul` follows `std::stoul` in base 10: it skips
leading white space, accepts a sign, reads the longest run of digits and ignores
what follows, and throws (`none`) when there is no digit or the value does not fit
`unsigned long`. The width of that type is the platform's (`Platform`), at least
32 bits. A `std::map` is the partial function from keys to values.
-/

namespace AsioStudy

/-- A `std::string`: its bytes. -/
abbrev Bytes := List UInt8

/-- The bytes of a string literal. -/
def bytes (s : String) : Bytes := s.toList.map fun c => UInt8.ofNat c.toNat

/-- `'\r'` -/
abbrev CR : UInt8 := 13
/-- `'\n'` -/
abbrev LF : UInt8 := 10
/-- `' '` -/
abbrev SP : UInt8 := 32
/-- `':'` -/
abbrev COLON : UInt8 := 58

/-- `"\r\n"` -/
abbrev CRLF : Bytes := [CR, LF]

/-- What the system reads of `c_str()`: the string up to its first NUL. -/
def c_str (s : Bytes) : Bytes := s.takeWhile (· ≠ 0)

theorem c_str_append {a : Bytes} (h : 0 ∉ a) (b : Bytes) : c_str (a ++ b) = a ++ c_str b := by
  refine List.takeWhile_append_of_pos ?_
  intro c hc
  have hne : c ≠ 0 := fun hzero => h (hzero ▸ hc)
  simpa using hne

/-- `std::isspace` in the C locale. -/
def isspace (c : UInt8) : Bool := c == 32 || (9 ≤ c && c ≤ 13)

/-- `std::isdigit` -/
def isdigit (c : UInt8) : Bool := 48 ≤ c && c ≤ 57

@[simp] theorem isspace_CR : isspace CR = true := rfl
@[simp] theorem isspace_LF : isspace LF = true := rfl
@[simp] theorem isspace_SP : isspace SP = true := rfl

/-- A digit is no white space. -/
theorem isspace_of_isdigit {c : UInt8} (h : isdigit c = true) : isspace c = false := by
  simp only [isdigit, Bool.and_eq_true, decide_eq_true_eq, UInt8.le_iff_toNat_le] at h
  have hne : c ≠ 32 := by
    rintro rfl
    exact absurd h.1 (by decide)
  have hgt : ¬ c ≤ 13 := by
    rw [UInt8.le_iff_toNat_le]
    have h48 : (48 : UInt8).toNat = 48 := rfl
    have h13 : (13 : UInt8).toNat = 13 := rfl
    omega
  simp [isspace, hne, hgt]

/-- To check a literal for white space, byte by byte. -/
theorem no_space_of_all {str : Bytes} (h : str.all (! isspace ·) = true) :
    ∀ c ∈ str, isspace c = false := by
  intro c hc
  simpa using List.all_eq_true.mp h c hc

/-! ### Numbers -/

/-- The digit of a number below ten. -/
def digit (d : Fin 10) : UInt8 := UInt8.ofNat (48 + d)

@[simp] theorem isdigit_digit (d : Fin 10) : isdigit (digit d) = true := by
  revert d; decide

theorem digit_toNat (d : Fin 10) : (digit d).toNat = 48 + d := by
  revert d; decide

/-- The value of a run of decimal digits. -/
def digitsValue (ds : Bytes) : Nat := ds.foldl (fun n d => 10 * n + (d.toNat - 48)) 0

/-- `std::to_string` of an unsigned number. -/
def to_string (n : Nat) : Bytes :=
  (Nat.toDigits 10 n).map fun c => UInt8.ofNat c.toNat

/-- What the C++ standard leaves to the platform: the largest `unsigned long`, at
least `2 ^ 32 - 1`, and the largest `std::size_t`. -/
structure Platform where
  ULONG_MAX : Nat
  ULONG_MAX_ge : 4294967295 ≤ ULONG_MAX
  SIZE_MAX : Nat

/-- 64-bit Windows, with a 32-bit `unsigned long`. -/
def Platform.llp64 : Platform := ⟨4294967295, Nat.le_refl _, 18446744073709551615⟩

/-- `std::stoul` with its default base 10; `none` is a thrown `std::logic_error`. -/
def stoul (P : Platform) (str : Bytes) : Option Nat :=
  let str := str.dropWhile isspace
  let negative := str.head? == some 45
  let str := if str.head? == some 45 || str.head? == some 43 then str.tail else str
  let ds := str.takeWhile isdigit
  if ds = [] then
    none -- std::invalid_argument
  else if P.ULONG_MAX < digitsValue ds then
    none -- std::out_of_range
  else if negative then
    some ((P.ULONG_MAX + 1 - digitsValue ds) % (P.ULONG_MAX + 1))
  else
    some (digitsValue ds)

/-- A run of digits that fits `unsigned long` is read as its value. -/
theorem stoul_digits (P : Platform) {ds : Bytes} (hne : ds ≠ [])
    (hd : ∀ d ∈ ds, isdigit d = true) (hmax : digitsValue ds ≤ P.ULONG_MAX) :
    stoul P ds = some (digitsValue ds) := by
  obtain ⟨d, rest, rfl⟩ := List.exists_cons_of_ne_nil hne
  have hd0 : isdigit d = true := hd d List.mem_cons_self
  have hskip : (d :: rest).dropWhile isspace = d :: rest :=
    List.dropWhile_cons_of_neg (by simp [isspace_of_isdigit hd0])
  have hsign : d ≠ 45 ∧ d ≠ 43 :=
    ⟨by rintro rfl; exact absurd hd0 (by decide), by rintro rfl; exact absurd hd0 (by decide)⟩
  have htake : (d :: rest).takeWhile isdigit = d :: rest :=
    List.takeWhile_eq_self_iff.mpr hd
  simp only [stoul, hskip, List.head?_cons]
  simp [hsign.1, hsign.2, htake, Nat.not_lt.mpr hmax]

/-- A word that begins with a number: an optional sign, digits whose value fits
`unsigned long`, and anything after them. -/
def NumberWord (P : Platform) (word : Bytes) : Prop :=
  ∃ sign ds rest, word = sign ++ ds ++ rest ∧ (sign = [] ∨ sign = [43] ∨ sign = [45]) ∧
    ds ≠ [] ∧ (∀ d ∈ ds, isdigit d = true) ∧ (∀ c ∈ rest.head?, isdigit c = false) ∧
    digitsValue ds ≤ P.ULONG_MAX

/-- A word without white space and its optional sign. -/
theorem exists_sign (word : Bytes) :
    ∃ sign number, word = sign ++ number ∧ (sign = [] ∨ sign = [43] ∨ sign = [45]) ∧
      (if word.head? == some 45 || word.head? == some 43 then word.tail else word) = number := by
  cases word with
  | nil => exact ⟨[], [], rfl, .inl rfl, rfl⟩
  | cons c word =>
      by_cases hplus : c = 43
      · exact ⟨[43], word, by rw [hplus]; rfl, .inr (.inl rfl), by simp [hplus]⟩
      · by_cases hminus : c = 45
        · exact ⟨[45], word, by rw [hminus]; rfl, .inr (.inr rfl), by simp [hminus]⟩
        · exact ⟨[], c :: word, rfl, .inl rfl, by simp [hplus, hminus]⟩

/-- The digits that `stoul` reads, and whether it is satisfied with them. -/
theorem stoul_isSome (P : Platform) {word number : Bytes}
    (hspace : ∀ c ∈ word, isspace c = false)
    (hnumber : (if word.head? == some 45 || word.head? == some 43 then word.tail else word) =
      number) :
    (stoul P word).isSome = true ↔
      number.takeWhile isdigit ≠ [] ∧ digitsValue (number.takeWhile isdigit) ≤ P.ULONG_MAX := by
  have hskip : word.dropWhile isspace = word := by
    cases word with
    | nil => rfl
    | cons c word => exact List.dropWhile_cons_of_neg (by simp [hspace c List.mem_cons_self])
  simp only [stoul, hskip, hnumber]
  split
  · next hnil => simp [hnil]
  · next hne =>
    split
    · next hlt => simp [Nat.not_le.mpr hlt]
    · next hnot =>
      have hle := Nat.le_of_not_lt hnot
      split <;> simp [hne, hle]

/-- **What `stoul` accepts.** -/
theorem stoul_isSome_iff (P : Platform) {word : Bytes} (hspace : ∀ c ∈ word, isspace c = false) :
    (stoul P word).isSome = true ↔ NumberWord P word := by
  obtain ⟨sign, number, hword, hsign, hnumber⟩ := exists_sign word
  rw [stoul_isSome P hspace hnumber]
  constructor
  · intro h
    refine ⟨sign, number.takeWhile isdigit, number.dropWhile isdigit, ?_, hsign, h.1, ?_, ?_, h.2⟩
    · rw [List.append_assoc, List.takeWhile_append_dropWhile, hword]
    · exact fun d hd => List.mem_takeWhile_imp hd
    · intro c hc
      have hhead := List.head?_dropWhile_not isdigit number
      simpa [Option.mem_def.mp hc] using hhead
  · intro h
    obtain ⟨sign', ds, rest, hword', hsign', hne, hds, hrest, hmax⟩ := h
    have hdigits : number = ds ++ rest := by
      obtain ⟨d, ds, rfl⟩ := List.exists_cons_of_ne_nil hne
      have hd : isdigit d = true := hds d List.mem_cons_self
      have hplus : d ≠ 43 := by rintro rfl; exact absurd hd (by decide)
      have hminus : d ≠ 45 := by rintro rfl; exact absurd hd (by decide)
      rw [← hnumber, hword']
      rcases hsign' with rfl | rfl | rfl <;> simp [hplus, hminus]
    have htake : number.takeWhile isdigit = ds := by
      rw [hdigits, List.takeWhile_append_of_pos hds]
      cases rest with
      | nil => simp
      | cons c rest => simp [hrest c (by simp)]
    rw [htake]
    exact ⟨hne, hmax⟩

/-! ### Strings -/

/-- `std::string::find` of a character; `none` is `npos`. -/
def find (s : Bytes) (c : UInt8) : Option Nat := s.findIdx? (· == c)

/-- Every element of a string that is not its delimiter: the delimiter is not found. -/
theorem find_eq_none {s : Bytes} {c : UInt8} : find s c = none ↔ c ∉ s := by
  simp only [find, List.findIdx?_eq_none_iff, beq_eq_false_iff_ne, ne_eq]
  exact ⟨fun h hc => h c hc rfl, fun h x hx hxc => h (hxc ▸ hx)⟩

/-- The first occurrence of `c` splits the string there. -/
theorem find_append_cons {s t : Bytes} {c : UInt8} (h : c ∉ s) :
    find (s ++ c :: t) c = some s.length := by
  induction s with
  | nil => simp [find, List.findIdx?_cons]
  | cons b s ih =>
      have hb : b ≠ c := fun he => h (he ▸ List.mem_cons_self)
      have hs : c ∉ s := fun hm => h (List.mem_cons_of_mem _ hm)
      have ih := ih hs
      simp only [find] at ih ⊢
      rw [List.cons_append, List.findIdx?_cons]
      simp [hb, ih]

/-- A string that contains `c` splits at its first occurrence. -/
theorem exists_split_of_mem {s : Bytes} {c : UInt8} (h : c ∈ s) :
    ∃ a b, s = a ++ c :: b ∧ c ∉ a :=
  let ⟨a, b, heq, hnot⟩ := List.eq_append_cons_of_mem h
  ⟨a, b, heq, hnot⟩

/-! ### Lines -/

/-- The text is one line, with its newline. -/
def IsLine (text : Bytes) : Prop := ∃ line, LF ∉ line ∧ text = line ++ [LF]

theorem IsLine.mem {text : Bytes} (h : IsLine text) : LF ∈ text := by
  obtain ⟨line, -, rfl⟩ := h
  simp

/-- A part of a line that has the newline is the line. -/
theorem IsLine.eq_of_mem {text part : Bytes} (h : IsLine text) (hpart : part <+: text)
    (hmem : LF ∈ part) : part = text := by
  obtain ⟨line, hline, rfl⟩ := h
  rcases List.prefix_concat_iff.mp hpart with rfl | hpart
  · rfl
  · exact absurd (hpart.subset hmem) hline

theorem LF_notMem_to_string (n : Nat) : LF ∉ to_string n := by
  intro hmem
  obtain ⟨c, hc, heq⟩ := List.mem_map.mp hmem
  have hdigit := Nat.isDigit_of_mem_toDigits (by omega) (by omega) hc
  have hrange : 48 ≤ c.toNat ∧ c.toNat ≤ 57 := by
    simp only [Char.isDigit, Bool.and_eq_true, decide_eq_true_eq, ge_iff_le,
      UInt32.le_iff_toNat_le] at hdigit
    exact hdigit
  have htoNat : (UInt8.ofNat c.toNat).toNat = LF.toNat := congrArg UInt8.toNat heq
  rw [UInt8.toNat_ofNat'] at htoNat
  have hLF : LF.toNat = 10 := rfl
  omega

/-- A verb with a number. -/
theorem isLine_number {verb : Bytes} (h : LF ∉ verb) (n : Nat) :
    IsLine (verb ++ to_string n ++ [LF]) :=
  ⟨verb ++ to_string n, by simp [h, LF_notMem_to_string], rfl⟩

theorem length_to_string_le (n : UInt32) : (to_string n.toNat).length ≤ 10 := by
  have hlt := n.toNat_lt
  rw [to_string, List.length_map, Nat.length_toDigits_le_iff (by omega) (by omega)]
  omega

/-! ### Maps -/

/-- A `std::map`: the value stored under each key. -/
abbrev StdMap (κ υ : Type*) := κ → Option υ

namespace StdMap

variable {κ υ : Type*} [DecidableEq κ]

/-- The map without entries. -/
def empty : StdMap κ υ := fun _ => none

/-- `m[k] = v` -/
def insert (m : StdMap κ υ) (k : κ) (v : υ) : StdMap κ υ := Function.update m k (some v)

/-- `m.erase(m.find(k))`, or nothing when `k` is not found. -/
def erase (m : StdMap κ υ) (k : κ) : StdMap κ υ := Function.update m k none

variable {m : StdMap κ υ} {k k' : κ} {v : υ}

omit [DecidableEq κ] in
@[simp] theorem empty_apply (k : κ) : (empty : StdMap κ υ) k = none := rfl

theorem insert_apply : m.insert k v k' = if k' = k then some v else m k' := by
  simp [insert, Function.update_apply]

theorem erase_apply : m.erase k k' = if k' = k then none else m k' := by
  simp [erase, Function.update_apply]

end StdMap

end AsioStudy
