import Mp3Kernel.Terminal.Printf

/-!
How far `printf` and `vprintf` look into a format, whatever is in it. A format
is made of pieces or ends inside a directive; there the switch takes the NUL for
an unknown conversion, and the loop goes on behind it.
-/
namespace Mp3Kernel.FormatScan
open Mp3Kernel.Memory Mp3Kernel.Screen Mp3Kernel.Tty Mp3Kernel.Itoa Mp3Kernel.Printf

variable {S : Type} {k : Call S} {p p' q : Printer S} {fuel : Nat} {buf buf' : Int} {alternate : Bool}
  {text rest : List Byte}

/-! ### Formats -/

theorem cstring_append {chars : Buffer} {s : Int} (string : CString chars s (text ++ rest)) :
    CString chars (s + text.length) rest := by
  induction text generalizing s with
  | nil => simpa using string
  | cons c text ih =>
    have next : s + 1 + text.length = s + (c :: text).length := by rw [List.length_cons]; push_cast; omega
    rw [← next]
    exact ih string.2.2

theorem cstring_nonzero {chars : Buffer} {s : Int} (string : CString chars s text) : ∀ c ∈ text, c ≠ 0 :=
  (cstring_iff.mp string).2.1

/-- Any character but NUL and `#` ends a directive. -/
theorem ends_directive_iff {c : Byte} : (∃ conv : Conv, conv.char_of = c) ↔ c ≠ 0 ∧ c ≠ ascii '#' := by
  constructor
  · rintro ⟨conv,rfl⟩
    cases conv with
    | other c unknown =>
      constructor
      · rintro (rfl : c = 0)
        exact unknown List.mem_cons_self
      · rintro (rfl : c = ascii '#')
        exact unknown (by simp)
    | _ => decide
  · rintro ⟨nonzero,plain⟩
    by_cases unknown : c ∈ 0 :: ['%','#','x','u','d','c','s'].map ascii
    · simp only [List.mem_cons,List.map_cons,List.map_nil,List.not_mem_nil,or_false] at unknown
      rcases unknown with nul | percent | sharp | hexadecimal | unsigned | signed | char | string
      · exact absurd nul nonzero
      · exact ⟨.percent,percent.symm⟩
      · exact absurd sharp plain
      · exact ⟨.hexadecimal,hexadecimal.symm⟩
      · exact ⟨.unsigned,unsigned.symm⟩
      · exact ⟨.signed,signed.symm⟩
      · exact ⟨.char,char.symm⟩
      · exact ⟨.string,string.symm⟩
    · exact ⟨.other c unknown,rfl⟩

/-- A format is made of pieces, unless it ends inside a directive. -/
theorem pieces_or_open (text : List Byte) (nonzero : ∀ c ∈ text, c ≠ 0) :
    ∃ pieces : List Piece, text = pieces.flatMap Piece.spelled ∨
      ∃ sharps, text = pieces.flatMap Piece.spelled ++ ascii '%' :: List.replicate sharps (ascii '#') := by
  induction text using List.reverseRecOn with
  | nil => exact ⟨[],.inl rfl⟩
  | append_singleton text c ih =>
    obtain ⟨pieces,rfl | ⟨sharps,rfl⟩⟩ := ih (fun d inside => nonzero d (List.mem_append_left _ inside))
    · by_cases percent : c = ascii '%'
      · exact ⟨pieces,.inr ⟨0,by rw [percent]; rfl⟩⟩
      · have shown : c ≠ 0 ∧ c ≠ ascii '%' := ⟨nonzero c (by simp),percent⟩
        exact ⟨pieces ++ [.plain c shown],.inl (by simp [Piece.spelled])⟩
    · by_cases sharp : c = ascii '#'
      · exact ⟨pieces,.inr ⟨sharps + 1,by rw [sharp,List.replicate_succ']; simp⟩⟩
      · obtain ⟨conv,rfl⟩ := ends_directive_iff.mpr ⟨nonzero c (by simp),sharp⟩
        exact ⟨pieces ++ [.directive sharps conv],.inl (by simp [Piece.spelled])⟩

/-! ### What is looked at -/

/-- Only characters from `low` up to `high` are looked at in between. -/
def Looks (low high : Int) (p p' : Printer S) : Prop :=
  ∃ looked, p'.reads = p.reads ++ looked ∧ ∀ i ∈ looked, low ≤ i ∧ i < high

theorem looks_same {low high : Int} (same : p'.reads = p.reads) : Looks low high p p' :=
  ⟨[],by rw [same,List.append_nil],fun _ looked => absurd looked List.not_mem_nil⟩

theorem looks_one {low high : Int} (same : p'.reads = p.reads ++ [buf]) (above : low ≤ buf) (below : buf < high) :
    Looks low high p p' := by
  refine ⟨[buf],same,?_⟩
  intro i looked
  obtain rfl := List.mem_singleton.mp looked
  exact ⟨above,below⟩

theorem Looks.trans {low middle high : Int} (first : Looks low middle p q) (second : Looks middle high q p')
    (up : low ≤ middle) (on : middle ≤ high) : Looks low high p p' := by
  obtain ⟨xs,reads,inside⟩ := first
  obtain ⟨ys,reads',inside'⟩ := second
  refine ⟨xs ++ ys,by rw [reads',reads,List.append_assoc],?_⟩
  intro i looked
  rcases List.mem_append.mp looked with before | after
  · have := inside i before
    omega
  · have := inside' i after
    omega

/-! ### Conversions -/

theorem puts_loop_string {put : Byte → S → S} {chars : Buffer} {s : Int} {index : Nat} {out : S} {r : Nat × S}
    (ends : puts_loop put chars s fuel index out = some r) : ∃ text, CString chars (s + index) text := by
  induction fuel generalizing index out with
  | zero => cases ends
  | succ fuel ih =>
    rw [puts_loop] at ends
    by_cases nul : chars (s + index) = 0
    · exact ⟨[],nul⟩
    · rw [if_pos nul] at ends
      obtain ⟨text,string⟩ := ih ends
      have next : s + (index + 1 : Nat) = s + index + 1 := by push_cast; omega
      exact ⟨chars (s + index) :: text,rfl,nul,next ▸ string⟩

theorem print_buf_leaves {size s : Int} {b : CharBuf} (ends : print_buf k fuel size b s p = some p') :
    p'.esp = p.esp + 1 ∧ p'.reads = p.reads := by
  obtain ⟨_,-,rfl⟩ := Option.map_eq_some_iff.mp ends
  exact ⟨rfl,rfl⟩

theorem print_x_leaves (ends : print_x k fuel alternate p = some p') : p'.esp = p.esp + 1 ∧ p'.reads = p.reads := by
  rw [print_x] at ends
  split at ends
  · obtain ⟨b,-,printed⟩ := Option.bind_eq_some_iff.mp ends
    exact print_buf_leaves printed
  · obtain ⟨b,-,ends⟩ := Option.bind_eq_some_iff.mp ends
    obtain ⟨starting_index,-,printed⟩ := Option.bind_eq_some_iff.mp ends
    exact print_buf_leaves printed

/-- A conversion that ends has used up its argument and not looked at the format;
    one that prints a string has found its NUL. -/
theorem converted_leaves (sharps : Nat) {conv : Conv} (ends : converted k fuel alternate p conv = some p') :
    p'.esp = p.esp + (Piece.directive sharps conv).takes ∧ p'.reads = p.reads ∧
      Points k.mem (k.args p.esp) (.directive sharps conv) := by
  cases conv with
  | percent =>
    cases ends
    exact ⟨rfl,rfl,trivial⟩
  | hexadecimal => exact ⟨(print_x_leaves ends).1,(print_x_leaves ends).2,trivial⟩
  | unsigned =>
    obtain ⟨b,-,printed⟩ := Option.bind_eq_some_iff.mp ends
    exact ⟨(print_buf_leaves printed).1,(print_buf_leaves printed).2,trivial⟩
  | signed =>
    obtain ⟨b,-,printed⟩ := Option.bind_eq_some_iff.mp ends
    exact ⟨(print_buf_leaves printed).1,(print_buf_leaves printed).2,trivial⟩
  | char =>
    cases ends
    exact ⟨rfl,rfl,trivial⟩
  | string =>
    obtain ⟨_,put,rfl⟩ := Option.map_eq_some_iff.mp ends
    obtain ⟨text,string⟩ := puts_loop_string put
    exact ⟨rfl,rfl,text,by simpa using string⟩
  | other c unknown =>
    cases ends
    exact ⟨rfl,rfl,trivial⟩

/-! ### One character -/

/-- The switch reads a character, and `#` leads to the next. A NUL is passed by
    like any character that is no conversion. -/
theorem switch_cases (ends : format_char_switch k fuel alternate buf p = some (buf',p')) : ∃ more, fuel = more + 1 ∧
    ((k.format buf = ascii '#' ∧
        format_char_switch k more true (buf + 1) { p with reads := p.reads ++ [buf] } = some (buf',p')) ∨
      (k.format buf = 0 ∧ buf' = buf ∧ p' = { p with reads := p.reads ++ [buf] }) ∨
      ∃ conv : Conv, k.format buf = conv.char_of ∧ buf' = buf ∧
        converted k more alternate { p with reads := p.reads ++ [buf] } conv = some p') := by
  obtain _ | more := fuel
  · cases ends
  · refine ⟨more,rfl,?_⟩
    by_cases sharp : k.format buf = ascii '#'
    · rw [format_char_switch,sharp] at ends
      exact .inl ⟨sharp,ends⟩
    · by_cases nul : k.format buf = 0
      · rw [format_char_switch,nul] at ends
        cases ends
        exact .inr (.inl ⟨nul,rfl,rfl⟩)
      · obtain ⟨conv,letter⟩ := ends_directive_iff.mpr ⟨nul,sharp⟩
        rw [switch_converts more alternate p letter.symm] at ends
        obtain ⟨_,printed,same⟩ := Option.map_eq_some_iff.mp ends
        cases same
        exact .inr (.inr ⟨conv,letter.symm,rfl,printed⟩)

/-- The outer loop stops at a NUL, prints a character, or leaves a directive to
    the switch. -/
theorem scan_cases (ends : scan k fuel buf p = some (buf',p')) : ∃ more, fuel = more + 1 ∧
    ((k.format buf = 0 ∧ buf' = buf ∧ p' = { p with reads := p.reads ++ [buf] }) ∨
      (k.format buf ≠ 0 ∧ k.format buf ≠ ascii '%' ∧
        scan k more (buf + 1) { p with reads := p.reads ++ [buf], out := k.put (k.format buf) p.out } = some (buf',p')) ∨
      (k.format buf = ascii '%' ∧ ∃ last q,
        format_char_switch k more false (buf + 1) { p with reads := p.reads ++ [buf] } = some (last,q) ∧
        scan k more (last + 1) q = some (buf',p'))) := by
  obtain _ | more := fuel
  · cases ends
  · refine ⟨more,rfl,?_⟩
    rw [scan] at ends
    dsimp only at ends
    by_cases nul : k.format buf = 0
    · rw [if_pos nul] at ends
      cases ends
      exact .inl ⟨nul,rfl,rfl⟩
    · rw [if_neg nul] at ends
      by_cases percent : k.format buf = ascii '%'
      · rw [if_pos percent] at ends
        obtain ⟨⟨last,q⟩,switched,later⟩ := Option.bind_eq_some_iff.mp ends
        exact .inr (.inr ⟨percent,last,q,switched,later⟩)
      · rw [if_neg percent] at ends
        exact .inr (.inl ⟨nul,percent,ends⟩)

/-! ### Any memory behind a format -/

/-- What has been looked at stays so, and the character at hand is. -/
theorem switch_looked (ends : format_char_switch k fuel alternate buf p = some (buf',p')) :
    p.reads ++ [buf] <+: p'.reads := by
  induction fuel generalizing alternate buf p with
  | zero => cases ends
  | succ fuel ih =>
    obtain ⟨more,same,⟨-,next⟩ | ⟨-,-,rfl⟩ | ⟨conv,-,-,printed⟩⟩ := switch_cases ends
    · obtain rfl := Nat.succ.inj same
      exact (List.prefix_append _ _).trans (ih next)
    · exact List.prefix_rfl
    · rw [(converted_leaves 0 printed).2.1]

theorem scan_looked (ends : scan k fuel buf p = some (buf',p')) : p.reads ++ [buf] <+: p'.reads := by
  induction fuel generalizing buf p with
  | zero => cases ends
  | succ fuel ih =>
    obtain ⟨more,same,⟨-,-,rfl⟩ | ⟨-,-,later⟩ | ⟨-,last,q,switched,later⟩⟩ := scan_cases ends
    · exact List.prefix_rfl
    · obtain rfl := Nat.succ.inj same
      exact (List.prefix_append _ _).trans (ih later)
    · obtain rfl := Nat.succ.inj same
      have first : p.reads ++ [buf] <+: q.reads := (List.prefix_append _ _).trans (switch_looked switched)
      exact first.trans ((List.prefix_append _ _).trans (ih later))

/-! ### Pieces -/

/-- The `#`s of a directive are passed one by one. -/
theorem sharps_passed (n : Nat) (string : CString k.format buf (List.replicate n (ascii '#') ++ rest))
    (ends : format_char_switch k fuel alternate buf p = some (buf',p')) : ∃ fuel alternate q, q.esp = p.esp ∧
      Looks buf (buf + n) p q ∧ format_char_switch k fuel alternate (buf + n) q = some (buf',p') := by
  induction n generalizing fuel alternate buf p with
  | zero => exact ⟨fuel,alternate,p,rfl,looks_same rfl,by simpa using ends⟩
  | succ n ih =>
    obtain ⟨char,-,later⟩ := string
    have next : buf + 1 + n = buf + (n + 1 : Nat) := by push_cast; omega
    obtain ⟨more,-,⟨-,passed⟩ | ⟨nul,-⟩ | ⟨conv,letter,-⟩⟩ := switch_cases ends
    · obtain ⟨fuel,alternate,q,esp,looks,switched⟩ := ih later passed
      rw [next] at looks switched
      exact ⟨fuel,alternate,q,esp,(looks_one rfl le_rfl (Int.lt_succ buf)).trans looks (by omega) (by omega),switched⟩
    · exact absurd (char.symm.trans nul) (by decide)
    · exact absurd char (ends_directive_iff.mp ⟨conv,letter.symm⟩).2

/-- A switch that ends after the rest of a directive has found what it needs. -/
theorem directive_switched (sharps : Nat) (conv : Conv)
    (string : CString k.format buf (List.replicate sharps (ascii '#') ++ conv.char_of :: rest))
    (ends : format_char_switch k fuel alternate buf p = some (buf',p')) :
    Points k.mem (k.args p.esp) (.directive sharps conv) ∧ buf' = buf + sharps ∧
      p'.esp = p.esp + (Piece.directive sharps conv).takes ∧ Looks buf (buf + sharps + 1) p p' := by
  obtain ⟨fuel,alternate,q,esp,looks,passed⟩ := sharps_passed sharps string ends
  have letter : k.format (buf + sharps) = conv.char_of := by
    have behind := cstring_append string
    rw [List.length_replicate] at behind
    exact behind.1
  obtain _ | fuel := fuel
  · cases passed
  · rw [switch_converts fuel alternate q letter] at passed
    obtain ⟨_,printed,same⟩ := Option.map_eq_some_iff.mp passed
    cases same
    obtain ⟨taken,reads,points⟩ := converted_leaves sharps printed
    have start : q.esp = p.esp := esp
    refine ⟨start ▸ points,rfl,?_,?_⟩
    · rw [taken,← start]
    · exact looks.trans (looks_one reads le_rfl (Int.lt_succ _)) (by omega) (by omega)

/-- A loop that ends after a piece has found what the piece needs, and has gone
    on behind it. -/
theorem piece_scanned (piece : Piece) (string : CString k.format buf (piece.spelled ++ rest))
    (ends : scan k fuel buf p = some (buf',p')) : Points k.mem (k.args p.esp) piece ∧ ∃ fuel q,
      q.esp = p.esp + piece.takes ∧ Looks buf (buf + piece.spelled.length) p q ∧
      scan k fuel (buf + piece.spelled.length) q = some (buf',p') := by
  cases piece with
  | plain c shown =>
    obtain ⟨more,-,⟨nul,-⟩ | ⟨-,-,later⟩ | ⟨percent,-⟩⟩ := scan_cases ends
    · exact absurd (string.1.symm.trans nul) shown.1
    · refine ⟨trivial,more,_,?_,?_,later⟩
      · rfl
      · exact looks_one rfl le_rfl (Int.lt_succ buf)
    · exact absurd (string.1.symm.trans percent) shown.2
  | directive sharps conv =>
    have tail : CString k.format (buf + 1) (List.replicate sharps (ascii '#') ++ conv.char_of :: rest) := by
      simpa using string.2.2
    have length : buf + (Piece.directive sharps conv).spelled.length = buf + 1 + sharps + 1 := by
      simp [Piece.spelled]
      omega
    obtain ⟨more,-,⟨nul,-⟩ | ⟨-,plain,-⟩ | ⟨-,last,q,switched,later⟩⟩ := scan_cases ends
    · exact absurd (string.1.symm.trans nul) (by decide)
    · exact absurd string.1 plain
    · obtain ⟨points,rfl,taken,looks⟩ := directive_switched sharps conv tail switched
      have first : Looks buf (buf + 1) p { p with reads := p.reads ++ [buf] } := looks_one rfl le_rfl (Int.lt_succ buf)
      rw [length]
      exact ⟨points,more,q,taken,first.trans looks (by omega) (by omega),later⟩

/-- The same for all pieces of a format. -/
theorem pieces_scanned (pieces : List Piece) (string : CString k.format buf (pieces.flatMap Piece.spelled ++ rest))
    (ends : scan k fuel buf p = some (buf',p')) : Pointed k.toSource p.esp pieces ∧ ∃ fuel q,
      Looks buf (buf + (pieces.flatMap Piece.spelled).length) p q ∧
      scan k fuel (buf + (pieces.flatMap Piece.spelled).length) q = some (buf',p') := by
  induction pieces generalizing fuel buf p with
  | nil => exact ⟨trivial,fuel,p,looks_same rfl,by simpa using ends⟩
  | cons piece pieces ih =>
    rw [List.flatMap_cons,List.append_assoc] at string
    obtain ⟨points,fuel,q,esp,looks,later⟩ := piece_scanned piece string ends
    obtain ⟨pointed,fuel,r,looks',last⟩ := ih (cstring_append string) later
    have length : buf + ((piece :: pieces).flatMap Piece.spelled).length =
        buf + piece.spelled.length + (pieces.flatMap Piece.spelled).length := by
      rw [List.flatMap_cons,List.length_append]
      push_cast
      omega
    rw [length]
    exact ⟨⟨points,esp ▸ pointed⟩,fuel,r,looks.trans looks' (by omega) (by omega),last⟩

/-! ### Calls -/

/-- The call returns. It has looked at no character behind the NUL of its format,
    and counts no more than the format has. -/
def StaysInFormat (text : List Byte) (call : Nat → Option (Int × Printer S)) : Prop :=
  ∃ few, ∀ fuel, few ≤ fuel → ∃ count p, call fuel = some (count,p) ∧
    (∀ i ∈ p.reads, 0 ≤ i ∧ i ≤ text.length) ∧ count ≤ text.length

/-- The format is made of characters and whole directives, with a string for each `%s`. -/
def Whole (source : Source) (text : List Byte) : Prop :=
  ∃ pieces : List Piece, text = pieces.flatMap Piece.spelled ∧ Pointed source 0 pieces

variable {put : Byte → S → S} {stack : Nat → Buffer} {out : S} {source : Source} {count : Int}

theorem pieces_stay {pieces : List Piece} (string : CString source.format 0 (pieces.flatMap Piece.spelled))
    (ends : print_format ⟨source,put,stack⟩ fuel out = some (count,p)) : Pointed source 0 pieces ∧
      (∀ i ∈ p.reads, 0 ≤ i ∧ i ≤ (pieces.flatMap Piece.spelled).length) ∧
      count ≤ (pieces.flatMap Piece.spelled).length := by
  obtain ⟨⟨last,q⟩,scanned,same⟩ := Option.map_eq_some_iff.mp ends
  cases same
  have nul : source.format (0 + (pieces.flatMap Piece.spelled).length) = 0 := (cstring_iff.mp string).2.2
  have whole : CString source.format 0 (pieces.flatMap Piece.spelled ++ []) := by rwa [List.append_nil]
  obtain ⟨pointed,fuel,r,looks,ended⟩ := pieces_scanned (k := ⟨source,put,stack⟩) pieces whole scanned
  obtain ⟨-,-,⟨-,rfl,rfl⟩ | ⟨nonzero,-⟩ | ⟨percent,-⟩⟩ := scan_cases ended
  · refine ⟨pointed,?_,?_⟩
    · obtain ⟨looked,reads,inside⟩ := looks
      intro i looked'
      rcases List.mem_append.mp looked' with before | here
      · have := inside i (by simpa [reads] using before)
        omega
      · obtain rfl := List.mem_singleton.mp here
        omega
    · rw [Int.zero_add,Int.toNat_natCast]
      exact i32_le _
  · exact absurd nul nonzero
  · exact absurd (nul.symm.trans percent) (by decide)

/-- Behind an open directive the loop goes on: the switch has passed the NUL by. -/
theorem open_looks_past {pieces : List Piece} {sharps : Nat}
    (string : CString source.format 0
      (pieces.flatMap Piece.spelled ++ ascii '%' :: List.replicate sharps (ascii '#')))
    (ends : print_format ⟨source,put,stack⟩ fuel out = some (count,p)) :
    ((pieces.flatMap Piece.spelled).length + 1 + sharps + 1 : Int) ∈ p.reads := by
  obtain ⟨⟨last,q⟩,scanned,same⟩ := Option.map_eq_some_iff.mp ends
  cases same
  obtain ⟨-,fuel,r,-,ended⟩ := pieces_scanned (k := ⟨source,put,stack⟩) pieces string scanned
  have behind := cstring_append string
  rw [Int.zero_add] at ended behind
  obtain ⟨char,-,tail⟩ := behind
  obtain ⟨more,-,⟨nul,-⟩ | ⟨-,plain,-⟩ | ⟨-,last,q,switched,later⟩⟩ := scan_cases ended
  · exact absurd (char.symm.trans nul) (by decide)
  · exact absurd char plain
  · have sharps_only : CString source.format ((pieces.flatMap Piece.spelled).length + 1)
        (List.replicate sharps (ascii '#') ++ []) := by rwa [List.append_nil]
    obtain ⟨fuel,alternate,r,-,-,passed⟩ := sharps_passed sharps sharps_only switched
    have nul : source.format ((pieces.flatMap Piece.spelled).length + 1 + sharps) = 0 := by
      simpa using (cstring_iff.mp tail).2.2
    obtain ⟨-,-,⟨sharp,-⟩ | ⟨-,rfl,-⟩ | ⟨conv,letter,-⟩⟩ := switch_cases passed
    · exact absurd (nul.symm.trans sharp) (by decide)
    · exact (scan_looked later).subset (List.mem_append_right _ (List.mem_singleton_self _))
    · exact absurd nul (ends_directive_iff.mp ⟨conv,letter.symm⟩).1

theorem print_format_stays_iff (string : CString source.format 0 text) :
    StaysInFormat text (fun fuel => print_format ⟨source,put,stack⟩ fuel out) ↔ Whole source text := by
  constructor
  · rintro ⟨few,returns⟩
    obtain ⟨count,p,ends,inside,-⟩ := returns few le_rfl
    obtain ⟨pieces,rfl | ⟨sharps,rfl⟩⟩ := pieces_or_open text (cstring_nonzero string)
    · exact ⟨pieces,rfl,(pieces_stay string ends).1⟩
    · have past := (inside _ (open_looks_past string ends)).2
      simp at past
      omega
  · rintro ⟨pieces,rfl,pointed⟩
    obtain ⟨texts,-,outputs⟩ := print_format_outputs string pointed
    obtain ⟨few,returns⟩ := outputs put stack out
    refine ⟨few,?_⟩
    intro fuel enough
    obtain ⟨p,ends,-⟩ := returns fuel enough
    exact ⟨_,p,ends,(pieces_stay string ends).2⟩

/-- `printf` and `vprintf` return without a look behind the NUL of their format
    when it does not end inside a directive and its strings are strings. -/
theorem stays_in_format_iff {source : Source} {text : List Byte} (string : CString source.format 0 text)
    (stack : Nat → Buffer) (c : Console) (term : Terminal) :
    (StaysInFormat text (fun fuel => printf fuel source stack c) ↔ Whole source text) ∧
    (StaysInFormat text (fun fuel => vprintf fuel source stack term) ↔ Whole source text) :=
  ⟨print_format_stays_iff string,print_format_stays_iff string⟩

/-- A directive with a `#` that is of no use to it, for an empty string. -/
def marked_string : Source where
  mem := fun _ => 0
  format := fun i => [ascii '%',ascii '#',ascii 's'].getD i.toNat 0
  args := fun _ => 0

theorem stays_in_format_marked : CString marked_string.format 0 [ascii '%',ascii '#',ascii 's'] ∧ ∀ stack c,
    StaysInFormat [ascii '%',ascii '#',ascii 's'] (fun fuel => printf fuel marked_string stack c) := by
  have string : CString marked_string.format 0 [ascii '%',ascii '#',ascii 's'] :=
    ⟨rfl,by decide,rfl,by decide,rfl,by decide,rfl⟩
  have whole : Whole marked_string [ascii '%',ascii '#',ascii 's'] := ⟨[.directive 1 .string],rfl,⟨[],rfl⟩,trivial⟩
  exact ⟨string,fun stack c => (stays_in_format_iff string stack c default).1.mpr whole⟩

/-- A percent sign at the end of a format, with another string behind it. -/
def trailing_percent : Source where
  mem := fun _ => 0
  format := fun i => [ascii '%',0,ascii 'a'].getD i.toNat 0
  args := fun _ => 0

/-- The other string is printed too, and the count is 3. -/
theorem trailing_percent_runs_on : CString trailing_percent.format 0 [ascii '%'] ∧ ∀ stack c,
    (∀ fuel, 3 ≤ fuel → ∃ p, printf fuel trailing_percent stack c = some (3,p) ∧ p.reads = [0,1,2,3] ∧
      p.out = putc (ascii 'a') c) ∧
    ¬ StaysInFormat [ascii '%'] (fun fuel => printf fuel trailing_percent stack c) := by
  refine ⟨⟨rfl,by decide,rfl⟩,?_⟩
  intro stack c
  have runs_on : ∀ fuel, 3 ≤ fuel → ∃ p, printf fuel trailing_percent stack c = some (3,p) ∧ p.reads = [0,1,2,3] ∧
      p.out = putc (ascii 'a') c := by
    intro fuel enough
    obtain ⟨more,rfl⟩ : ∃ more, fuel = more + 3 := ⟨fuel - 3,by omega⟩
    exact ⟨_,rfl,rfl,rfl⟩
  refine ⟨runs_on,?_⟩
  rintro ⟨few,returns⟩
  obtain ⟨p,ends,reads,-⟩ := runs_on (max few 3) (le_max_right _ _)
  obtain ⟨_,_,ends',inside,-⟩ := returns (max few 3) (le_max_left _ _)
  cases ends.symm.trans ends'
  have past := (inside 3 (by simp [reads])).2
  exact absurd past (by decide)

end Mp3Kernel.FormatScan
