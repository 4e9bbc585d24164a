import Mp3Kernel.Lib.Positional
import Mp3Kernel.Terminal.Screen

/-!
Numbers as text: `itoa`, `strrev` and `strlen` of lib.c on a buffer that keeps
account of where it is stored to.
-/
namespace Mp3Kernel.Itoa
open Mp3Kernel.Memory Mp3Kernel.Screen Mp3Kernel.Positional

/-- The characters of a buffer, and the indices that were stored to. -/
structure CharBuf where
  chars : Buffer
  stores : List Int

def CharBuf.put (b : CharBuf) (i : Int) (c : Byte) : CharBuf := ⟨store b.chars i c,b.stores ++ [i]⟩

/-! ### lib.c -/

def lookup (i : Nat) : Byte :=
  (['0','1','2','3','4','5','6','7','8','9','A','B','C','D','E','F','G','H','I','J','K','L','M','N','O','P','Q',
    'R','S','T','U','V','W','X','Y','Z'].map ascii).getD i 0

/-- The loop of `strlen` at length `len`. -/
def strlen_loop (s : Int) (chars : Buffer) : (fuel : Nat) → (len : Nat) → Option Nat
  | 0, _ => none
  | fuel + 1, len => if chars (s + len) ≠ 0 then strlen_loop s chars fuel (len + 1) else some len

def strlen (fuel : Nat) (s : Int) (chars : Buffer) : Option Nat := strlen_loop s chars fuel 0

/-- The loop of `strrev`, whose indices come from both ends. -/
def strrev_loop (s : Int) : (fuel : Nat) → (first last : Int) → CharBuf → Option CharBuf
  | 0, _, _, _ => none
  | fuel + 1, first, last, b =>
    if first < last then
      let tmp := b.chars (s + last)
      let b := b.put (s + last) (b.chars (s + first))
      strrev_loop s fuel (first + 1) (last - 1) (b.put (s + first) tmp)
    else some b

def strrev (fuel : Nat) (s : Int) (b : CharBuf) : Option CharBuf :=
  (strlen fuel s b.chars).bind fun len => strrev_loop s fuel 0 (len - 1) b

/-- The loop of `itoa`, which stores the digits from the lowest one on. A radix
    of zero faults. -/
def itoa_loop (radix : Nat) : (fuel newval : Nat) → (newbuf : Int) → CharBuf → Option (Int × CharBuf)
  | 0, _, _, _ => none
  | fuel + 1, newval, newbuf, b =>
    if newval = 0 then some (newbuf,b)
    else if radix = 0 then none
    else itoa_loop radix fuel (newval / radix) (newbuf + 1) (b.put newbuf (lookup (newval % radix)))

/-- `itoa` into the buffer from index `buf` on. The radix divides an unsigned number. -/
def itoa (fuel : Nat) (value : Word) (buf radix : Int) (b : CharBuf) : Option CharBuf :=
  if value = 0 then some ((b.put buf (ascii '0')).put (buf + 1) 0)
  else (itoa_loop (u32 radix) fuel value.toNat buf b).bind fun (newbuf,b) => strrev fuel buf (b.put newbuf 0)

/-! ### What is stored where -/

/-- Only indices from `low` up to `high` are stored to. -/
structure Writes (low high : Int) (b b' : CharBuf) : Prop where
  stores : ∃ added, b'.stores = b.stores ++ added ∧ ∀ i ∈ added, low ≤ i ∧ i < high
  kept : ∀ i, i < low ∨ high ≤ i → b'.chars i = b.chars i

theorem Writes.refl (low high : Int) (b : CharBuf) : Writes low high b b :=
  ⟨⟨[],(List.append_nil _).symm,fun _ stored => absurd stored List.not_mem_nil⟩,fun _ _ => rfl⟩

variable {low high l h : Int} {b b' b'' : CharBuf}

theorem Writes.trans (first : Writes low high b b') (second : Writes low high b' b'') : Writes low high b b'' := by
  obtain ⟨xs,stores,inside⟩ := first.stores
  obtain ⟨ys,stores',inside'⟩ := second.stores
  refine ⟨⟨xs ++ ys,by rw [stores',stores,List.append_assoc],?_⟩,?_⟩
  · intro i stored
    rcases List.mem_append.mp stored with before | after
    · exact inside i before
    · exact inside' i after
  · intro i outside
    rw [second.kept i outside,first.kept i outside]

theorem Writes.wider (writes : Writes l h b b') (below : low ≤ l) (above : h ≤ high) : Writes low high b b' := by
  obtain ⟨added,stores,inside⟩ := writes.stores
  refine ⟨⟨added,stores,?_⟩,?_⟩
  · intro i stored
    have := inside i stored
    omega
  · intro i outside
    exact writes.kept i (by omega)

theorem writes_put {i : Int} (above : low ≤ i) (below : i < high) (c : Byte) : Writes low high b (b.put i c) := by
  refine ⟨⟨[i],rfl,?_⟩,?_⟩
  · intro j stored
    obtain rfl := List.mem_singleton.mp stored
    exact ⟨above,below⟩
  · intro j outside
    exact if_neg (by omega)

theorem put_same (b : CharBuf) (i : Int) (c : Byte) : (b.put i c).chars i = c := if_pos rfl

theorem put_other {i j : Int} (b : CharBuf) (c : Byte) (apart : j ≠ i) : (b.put i c).chars j = b.chars j := if_neg apart

/-! ### Strings -/

/-- The characters from index `s` on are those of the text, with a NUL after them. -/
def CString (chars : Buffer) (s : Int) : List Byte → Prop
  | [] => chars s = 0
  | c :: text => chars s = c ∧ c ≠ 0 ∧ CString chars (s + 1) text

theorem cstring_iff {chars : Buffer} {s : Int} {text : List Byte} : CString chars s text ↔
    (∀ j : Nat, ∀ c, text[j]? = some c → chars (s + j) = c) ∧ (∀ c ∈ text, c ≠ 0) ∧ chars (s + text.length) = 0 := by
  induction text generalizing s with
  | nil => simp [CString]
  | cons d text ih =>
    have next : ∀ j : Nat, s + 1 + j = s + (j + 1 : Nat) := by intro j; push_cast; omega
    rw [CString,ih,next]
    constructor
    · rintro ⟨head,nonzero,tail,rest,nul⟩
      refine ⟨?_,List.forall_mem_cons.mpr ⟨nonzero,rest⟩,nul⟩
      intro j c char
      cases j with
      | zero =>
        obtain rfl : d = c := by simpa using char
        simpa using head
      | succ j =>
        rw [← next]
        exact tail j c (by simpa using char)
    · rintro ⟨all,nonzero,nul⟩
      refine ⟨by simpa using all 0 d rfl,(List.forall_mem_cons.mp nonzero).1,?_,(List.forall_mem_cons.mp nonzero).2,nul⟩
      intro j c char
      rw [next]
      exact all (j + 1) c (by simpa using char)

theorem cstring_congr {chars chars' : Buffer} {s : Int} {text : List Byte} (same : ∀ i, s ≤ i → chars' i = chars i)
    (string : CString chars s text) : CString chars' s text := by
  induction text generalizing s with
  | nil => exact (same s le_rfl).trans string
  | cons c text ih =>
    obtain ⟨char,nonzero,rest⟩ := string
    exact ⟨(same s le_rfl).trans char,nonzero,ih (fun i above => same i (by omega)) rest⟩

theorem strlen_loop_eq {chars : Buffer} {s : Int} {text : List Byte} {len fuel : Nat} (string : CString chars (s + len) text)
    (enough : text.length < fuel) : strlen_loop s chars fuel len = some (len + text.length) := by
  induction text generalizing len fuel with
  | nil =>
    obtain ⟨fuel,rfl⟩ : ∃ more, fuel = more + 1 := ⟨fuel - 1,by simp at enough; omega⟩
    have nul : chars (s + len) = 0 := string
    rw [strlen_loop,if_neg (not_not.mpr nul)]
    rfl
  | cons c text ih =>
    obtain ⟨fuel,rfl⟩ : ∃ more, fuel = more + 1 := ⟨fuel - 1,by simp at enough; omega⟩
    obtain ⟨char,nonzero,rest⟩ := string
    have next : s + len + 1 = s + (len + 1 : Nat) := by push_cast; omega
    rw [strlen_loop,if_pos (by rwa [char]),ih (next ▸ rest) (by simp at enough; omega),List.length_cons]
    congr 1
    omega

theorem strlen_eq {chars : Buffer} {s : Int} {text : List Byte} {fuel : Nat} (string : CString chars s text)
    (enough : text.length < fuel) : strlen fuel s chars = some text.length := by
  rw [strlen,strlen_loop_eq (by simpa using string) enough,Nat.zero_add]

/-! ### Reversal -/

/-- Swapping from both ends inwards mirrors what is between. -/
theorem strrev_loop_mirrors (s : Int) (fuel : Nat) {first last : Int} (b : CharBuf) (enough : last - first ≤ fuel) :
    ∃ b', strrev_loop s (fuel + 1) first last b = some b' ∧ Writes (s + first) (s + last + 1) b b' ∧
      ∀ j, first ≤ j → j ≤ last → b'.chars (s + j) = b.chars (s + (first + last - j)) := by
  induction fuel generalizing first last b with
  | zero =>
    rw [strrev_loop,if_neg (by simp at enough; omega)]
    refine ⟨b,rfl,.refl _ _ b,?_⟩
    intro j low high
    rw [show first + last - j = j by simp at enough; omega]
  | succ fuel ih =>
    rw [strrev_loop]
    by_cases more : first < last
    · rw [if_pos more]
      dsimp only
      obtain ⟨b',ends,writes,mirrored⟩ := ih
        ((b.put (s + last) (b.chars (s + first))).put (s + first) (b.chars (s + last)))
        (show last - 1 - (first + 1) ≤ fuel by push_cast at enough; omega)
      refine ⟨b',ends,?_,?_⟩
      · refine .trans (.trans (writes_put ?_ ?_ _) (writes_put ?_ ?_ _)) (writes.wider ?_ ?_) <;> omega
      · intro j low high
        by_cases at_first : j = first
        · rw [at_first,writes.kept _ (by omega),put_same,show first + last - first = last by omega]
        by_cases at_last : j = last
        · rw [at_last,writes.kept _ (by omega),put_other _ _ (by omega),put_same,
            show first + last - last = first by omega]
        · rw [mirrored j (by omega) (by omega),put_other _ _ (by omega),put_other _ _ (by omega),
            show first + 1 + (last - 1) - j = first + last - j by omega]
    · rw [if_neg more]
      refine ⟨b,rfl,.refl _ _ b,?_⟩
      intro j low high
      rw [show first + last - j = j by omega]

/-- `strrev` turns a string round and stores to nothing but its characters. -/
theorem strrev_reverses {s : Int} {b : CharBuf} {text : List Byte} {fuel : Nat} (string : CString b.chars s text)
    (enough : text.length < fuel) : ∃ b', strrev fuel s b = some b' ∧ CString b'.chars s text.reverse ∧
      Writes s (s + text.length) b b' := by
  obtain ⟨more,rfl⟩ : ∃ more, fuel = more + 1 := ⟨fuel - 1,by omega⟩
  obtain ⟨b',ends,writes,mirrored⟩ := strrev_loop_mirrors s more b
    (show ((text.length : Int) - 1) - 0 ≤ more by omega)
  obtain ⟨chars,nonzero,nul⟩ := cstring_iff.mp string
  refine ⟨b',?_,?_,writes.wider (by omega) (by omega)⟩
  · rw [strrev,strlen_eq string enough]
    exact ends
  · refine cstring_iff.mpr ⟨?_,?_,?_⟩
    · intro j c char
      have inside : j < text.length := by simpa using (List.getElem?_eq_some_iff.mp char).1
      have mirror : (0 : Int) + ((text.length : Int) - 1) - j = (text.length - 1 - j : Nat) := by omega
      rw [mirrored j (by omega) (by omega),mirror]
      rw [List.getElem?_reverse inside] at char
      exact chars _ c char
    · exact fun c member => nonzero c (List.mem_reverse.mp member)
    · rw [List.length_reverse,writes.kept _ (by omega)]
      exact nul

/-! ### Digits -/

/-- The loop stores the digits in their order, the lowest first. -/
theorem itoa_loop_digits {radix : Nat} (large : 1 < radix) (fuel n : Nat) (newbuf : Int) (b : CharBuf)
    (enough : (Nat.digits radix n).length < fuel) : ∃ b',
      itoa_loop radix fuel n newbuf b = some (newbuf + (Nat.digits radix n).length,b') ∧
      Writes newbuf (newbuf + (Nat.digits radix n).length) b b' ∧
      ∀ j : Nat, ∀ d, (Nat.digits radix n)[j]? = some d → b'.chars (newbuf + j) = lookup d := by
  induction fuel generalizing n newbuf b with
  | zero => exact absurd enough (Nat.not_lt_zero _)
  | succ fuel ih =>
    rw [itoa_loop]
    by_cases done : n = 0
    · rw [if_pos done,done,Nat.digits_zero]
      exact ⟨b,by simp,.refl _ _ b,fun j d digit => by simp at digit⟩
    · have digits : Nat.digits radix n = n % radix :: Nat.digits radix (n / radix) :=
        Nat.digits_def' large (Nat.pos_of_ne_zero done)
      rw [digits,List.length_cons] at enough ⊢
      obtain ⟨b',ends,writes,stored⟩ := ih (n / radix) (newbuf + 1) (b.put newbuf (lookup (n % radix))) (by omega)
      have length : newbuf + 1 + (Nat.digits radix (n / radix)).length =
          newbuf + ((Nat.digits radix (n / radix)).length + 1 : Nat) := by push_cast; omega
      rw [if_neg done,if_neg (by omega),ends,length]
      refine ⟨b',rfl,(writes_put (by omega) (by omega) _).trans (writes.wider (by omega) (by omega)),?_⟩
      intro j d digit
      cases j with
      | zero =>
        obtain rfl : n % radix = d := by simpa using digit
        rw [Int.natCast_zero,Int.add_zero,writes.kept _ (by omega),put_same]
      | succ j =>
        have next : newbuf + (j + 1 : Nat) = newbuf + 1 + j := by push_cast; omega
        rw [next]
        exact stored j d (by simpa using digit)

/-! ### The text of a number -/

/-- The digit that a character stands for. -/
def digit_value (c : Byte) : Option Nat :=
  if 48 ≤ c.toNat ∧ c.toNat ≤ 57 then some (c.toNat - 48)
  else if 65 ≤ c.toNat ∧ c.toNat ≤ 90 then some (c.toNat - 55)
  else none

/-- The text denotes the number in that radix, without leading zeros. -/
structure Numeral (radix n : Nat) (text : List Byte) : Prop where
  reads : read digit_value radix text = some n
  plain : text = [ascii '0'] ∨ text.head? ≠ some (ascii '0')

/-- The text that `itoa` makes of a number. -/
def numeral (radix n : Nat) : List Byte := (written radix n).map lookup

theorem lookup_digit : ∀ d < 36, digit_value (lookup d) = some d ∧ lookup d ≠ 0 ∧ (lookup d = ascii '0' → d = 0) := by
  decide

variable {radix n : Nat}

theorem numeral_reads (large : 1 < radix) (small : radix ≤ 36) : Numeral radix n (numeral radix n) := by
  have decoded : ∀ d < radix, digit_value (lookup d) = some d := fun d digit => (lookup_digit d (by omega)).1
  refine ⟨?_,?_⟩
  · rw [numeral,read_encoded decoded (written_lt large) (written_ne_nil radix n),value_written]
  · by_cases zero : n = 0
    · left
      rw [zero]
      rfl
    · right
      obtain ⟨d,rest,digits,nonzero⟩ : ∃ d rest, written radix n = d :: rest ∧ d ≠ 0 := written_head zero
      have digit : d < radix := written_lt large d (digits ▸ List.mem_cons_self)
      rw [numeral,digits]
      intro head
      exact nonzero ((lookup_digit d (by omega)).2.2 (by simpa using head))

theorem numeral_nonzero (large : 1 < radix) (small : radix ≤ 36) : ∀ c ∈ numeral radix n, c ≠ 0 := by
  intro c member
  obtain ⟨d,digit,rfl⟩ := List.mem_map.mp member
  have := written_lt large d digit
  exact (lookup_digit d (by omega)).2.1

theorem numeral_length {k : Nat} (large : 1 < radix) (some_ : 0 < k) (fits : n < radix ^ k) :
    (numeral radix n).length ≤ k := by
  rw [numeral,List.length_map]
  exact written_length large some_ fits

theorem numeral_word (large : 1 < radix) (value : Word) : (numeral radix value.toNat).length ≤ 32 := by
  refine numeral_length large (by decide) (lt_of_lt_of_le value.isLt ?_)
  exact Nat.pow_le_pow_left large 32

/-- `itoa` leaves the number's text at `buf`, and stores to nothing but the
    text and its NUL. -/
theorem itoa_writes {r : Int} (is_radix : r = radix) (large : 1 < radix) (small : radix ≤ 36) {fuel : Nat}
    (enough : 34 ≤ fuel) (value : Word) (buf : Int) (b : CharBuf) : ∃ b', itoa fuel value buf r b = some b' ∧
      CString b'.chars buf (numeral radix value.toNat) ∧
      Writes buf (buf + (numeral radix value.toNat).length + 1) b b' := by
  have length := numeral_word large value
  have stored_radix : u32 r = radix := by rw [u32_small (by omega) (by omega),is_radix,Int.toNat_natCast]
  rw [itoa,stored_radix]
  by_cases zero : value = 0
  · have one : (numeral radix (0 : Word).toNat).length = 1 := rfl
    rw [if_pos zero,zero,one]
    refine ⟨_,rfl,⟨?_,by decide,put_same _ _ _⟩,
      (writes_put (by omega) (by omega) _).trans (writes_put (by omega) (by omega) _)⟩
    rw [put_other _ _ (by omega),put_same]
    rfl
  · have positive : value.toNat ≠ 0 := fun none_ => zero (BitVec.eq_of_toNat_eq none_)
    have text : numeral radix value.toNat = ((Nat.digits radix value.toNat).map lookup).reverse := by
      rw [numeral,written,if_neg positive,List.map_reverse]
    have size : (numeral radix value.toNat).length = (Nat.digits radix value.toNat).length := by
      rw [text,List.length_reverse,List.length_map]
    rw [if_neg zero]
    obtain ⟨b',ends,writes,stored⟩ := itoa_loop_digits large fuel value.toNat buf b (by omega)
    have string : CString (b'.put (buf + (Nat.digits radix value.toNat).length) 0).chars buf
        ((Nat.digits radix value.toNat).map lookup) := by
      refine cstring_iff.mpr ⟨?_,?_,?_⟩
      · intro j c char
        rw [List.getElem?_map] at char
        obtain ⟨d,digit,rfl⟩ := Option.map_eq_some_iff.mp char
        have inside := (List.getElem?_eq_some_iff.mp digit).1
        rw [put_other _ _ (by omega)]
        exact stored j d digit
      · intro c member
        have nonzero := numeral_nonzero (n := value.toNat) large small
        rw [text] at nonzero
        exact nonzero c (List.mem_reverse.mpr member)
      · rw [List.length_map]
        exact put_same _ _ _
    obtain ⟨b'',turned,reversed,within⟩ := strrev_reverses string (show _ < fuel by rw [List.length_map]; omega)
    rw [List.length_map] at within
    refine ⟨b'',?_,text ▸ reversed,?_⟩
    · rw [ends]
      exact turned
    · rw [size]
      exact ((writes.wider (by omega) (by omega)).trans (writes_put (by omega) (by omega) _)).trans
        (within.wider (by omega) (by omega))

end Mp3Kernel.Itoa
