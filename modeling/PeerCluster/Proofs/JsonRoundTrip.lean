import PeerCluster.Json.Printer
import PeerCluster.Json.Reader
import Mathlib.Data.List.TakeDrop
import Mathlib.Data.Option.Basic

/-!
# Reading JSON undoes writing it

**Theorem (`parse?_render`).** The text of a value is read back as the value.

The reader works in two stages, and so does the proof.

* *Tokens*: a value stands for a list of tokens (`tokensOf`), and its text is split into them
  (`writes_render`). A text is always followed by something; what follows matters to a numeral, which
  ends only where no digit, point or exponent comes next (`EndsNumeral`). A string is a sequence of
  pieces, one or two for every character (`exists_pieces_escapeChar`).
* *Values*: a reader that takes in the tokens of a value has the value in the end, whatever it was in
  the middle of (`reads_tokensOf`).

Both are inductions over the value with the separators between its items and fields written out, so
that the first item is no special case.
-/

namespace PeerCluster.Json

open Utf8 (encode)

/-! ## Strings -/

/-- Bytes that need no escape stand for themselves. -/
theorem pieces?_bytes {bs : List UInt8} (done : List Piece) (rest : List UInt8)
    (h : ∀ b ∈ bs, Ascii.space ≤ b ∧ b ≠ Ascii.quote ∧ b ≠ Ascii.backslash) :
    pieces? done (bs ++ rest) = pieces? ((bs.map Piece.byte).reverse ++ done) rest := by
  induction bs generalizing done with
  | nil => rfl
  | cons b bs ih =>
    obtain ⟨hspace, hquote, hbackslash⟩ := h b (List.mem_cons_self ..)
    have hnot : ¬ b < Ascii.space := UInt8.not_lt.2 hspace
    rw [List.cons_append, pieces?, if_neg hnot, ih _ fun b' hb' => h b' (List.mem_cons_of_mem _ hb')]
    · simp
    · exact hquote
    · intro a b c d e heq
      subst heq
      exact absurd rfl hbackslash
    · intro e rest' heq
      subst heq
      exact absurd rfl hbackslash

theorem pieceBytes?_bytes (bs done : List UInt8) (more : List Piece) :
    pieceBytes? done (bs.map Piece.byte ++ more) = pieceBytes? (bs.reverse ++ done) more := by
  induction bs generalizing done with
  | nil => rfl
  | cons b bs ih =>
    rw [List.map_cons, List.cons_append, pieceBytes?, ih]
    simp

theorem pieces?_shortEscape {e b : UInt8} (done : List Piece) (rest : List UInt8)
    (h : shortEscape? e = some b) :
    pieces? done (Ascii.backslash :: e :: rest) = pieces? (.byte b :: done) rest := by
  refine (pieces?.eq_4 done e rest ?_).trans (by rw [h])
  intro a b' c d e' heq
  subst heq
  have hnone : shortEscape? Ascii.lowerU = none := rfl
  cases hnone.symm.trans h

/-- A unit that is no half of a surrogate pair names a character of its own. -/
theorem pieceBytes?_unit {u : Nat} (done : List UInt8) (more : List Piece)
    (hlead : isLeadSurrogate u = false) (htrail : isTrailSurrogate u = false) :
    pieceBytes? done (.unit u :: more) = pieceBytes? ((charBytes u).reverse ++ done) more := by
  rw [pieceBytes?.eq_def]
  simp only [hlead, htrail, Bool.false_eq_true, if_false]

/-- The four digits of a control character are read back. -/
theorem unit?_ofNat : ∀ n < 32,
    (encode (Hex.ofNat 4 n)).length = 4 ∧ unit? (encode (Hex.ofNat 4 n)) = some n := by
  simp only [Utf8.encode_eq_flatMap]
  decide

theorem pieces?_unit {n : Nat} (done : List Piece) (rest : List UInt8) (hn : n < 32) :
    pieces? done (encode ("\\u" ++ Hex.ofNat 4 n) ++ rest) = pieces? (.unit n :: done) rest := by
  obtain ⟨hlength, hunit⟩ := unit?_ofNat n hn
  have hintro : encode "\\u" = [Ascii.backslash, Ascii.lowerU] := (Utf8.encode_eq_flatMap _).trans rfl
  rw [Utf8.encode_append, hintro]
  generalize encode (Hex.ofNat 4 n) = digits at hlength hunit
  match digits, hlength with
  | [a, b, c, d], _ =>
    show pieces? done (Ascii.backslash :: Ascii.lowerU :: a :: b :: c :: d :: rest) = _
    exact (pieces?.eq_3 done a b c d rest).trans (by rw [hunit])

/-- A character is cut into pieces that name its bytes, however it is escaped. -/
theorem exists_pieces_escapeChar (c : Char) :
    ∃ ps, (∀ done rest,
        pieces? done (encode (escapeChar c) ++ rest) = pieces? (ps.reverse ++ done) rest) ∧
      ∀ done more, pieceBytes? done (ps ++ more) =
        pieceBytes? ((String.utf8EncodeChar c).reverse ++ done) more := by
  -- Every escape but the one by number names the single byte of its character.
  have hshort : ∀ {e b : UInt8}, shortEscape? e = some b → String.utf8EncodeChar c = [b] →
      (escapeChar c).toList.flatMap String.utf8EncodeChar = [Ascii.backslash, e] →
      ∃ ps, (∀ done rest,
          pieces? done (encode (escapeChar c) ++ rest) = pieces? (ps.reverse ++ done) rest) ∧
        ∀ done more, pieceBytes? done (ps ++ more) =
          pieceBytes? ((String.utf8EncodeChar c).reverse ++ done) more := by
    intro e b hescape hchar hencode
    refine ⟨[.byte b], fun done rest => ?_, fun done more => ?_⟩
    · rw [Utf8.encode_eq_flatMap, hencode]
      exact pieces?_shortEscape done rest hescape
    · rw [hchar]
      rfl
  by_cases hquote : c = '"'
  · subst hquote
    exact hshort (e := Ascii.quote) (b := Ascii.quote) rfl rfl rfl
  by_cases hbackslash : c = '\\'
  · subst hbackslash
    exact hshort (e := Ascii.backslash) (b := Ascii.backslash) rfl rfl rfl
  by_cases hlf : c = '\n'
  · subst hlf
    exact hshort (e := Ascii.lowerN) (b := Ascii.lineFeed) rfl rfl rfl
  by_cases hcr : c = '\r'
  · subst hcr
    exact hshort (e := Ascii.lowerR) (b := Ascii.carriageReturn) rfl rfl rfl
  by_cases htab : c = '\t'
  · subst htab
    exact hshort (e := Ascii.lowerT) (b := Ascii.tab) rfl rfl rfl
  by_cases hbs : c.toNat = 8
  · obtain rfl : c = Char.ofNat 8 := by rw [← hbs, Char.ofNat_toNat]
    exact hshort (e := Ascii.lowerB) (b := 0x08) rfl rfl rfl
  by_cases hff : c.toNat = 12
  · obtain rfl : c = Char.ofNat 12 := by rw [← hff, Char.ofNat_toNat]
    exact hshort (e := Ascii.lowerF) (b := 0x0C) rfl rfl rfl
  have hescape : escapeChar c =
      if c.toNat < 32 then "\\u" ++ Hex.ofNat 4 c.toNat else String.singleton c := by
    rw [escapeChar, if_neg hquote, if_neg hbackslash, if_neg hlf, if_neg hcr, if_neg htab,
      if_neg hbs, if_neg hff]
  by_cases hcontrol : c.toNat < 32
  · rw [hescape, if_pos hcontrol]
    refine ⟨[.unit c.toNat], fun done rest => pieces?_unit done rest hcontrol, fun done more => ?_⟩
    have hlead : isLeadSurrogate c.toNat = false := by
      simp only [isLeadSurrogate, Bool.and_eq_false_iff, decide_eq_false_iff_not]
      omega
    have htrail : isTrailSurrogate c.toNat = false := by
      simp only [isTrailSurrogate, Bool.and_eq_false_iff, decide_eq_false_iff_not]
      omega
    rw [List.singleton_append, pieceBytes?_unit done more hlead htrail, charBytes,
      Char.ofNat_toNat]
  · rw [hescape, if_neg hcontrol]
    have hencode : encode (String.singleton c) = String.utf8EncodeChar c := by
      rw [Utf8.encode_eq_flatMap]
      simp
    rw [hencode]
    refine ⟨(String.utf8EncodeChar c).map Piece.byte, fun done rest => ?_, fun done more => ?_⟩
    · refine pieces?_bytes done rest fun b hb => ?_
      rcases Utf8.utf8EncodeChar_cases c with ⟨hlt, hchar⟩ | hlarge
      · rw [hchar, List.mem_singleton] at hb
        have hb' : b.toNat = c.toNat := by
          rw [hb]
          exact Nat.mod_eq_of_lt (by omega)
        have hne : ∀ d : Char, c ≠ d → b.toNat ≠ d.toNat := fun d hd heq =>
          hd (Char.toNat_inj.1 (hb'.symm.trans heq))
        refine ⟨UInt8.le_iff_toNat_le.2 (by rw [hb']; exact Nat.le_of_not_lt hcontrol), ?_, ?_⟩
        · intro h
          subst h
          exact hne '"' hquote rfl
        · intro h
          subst h
          exact hne '\\' hbackslash rfl
      · have hge := hlarge b hb
        refine ⟨UInt8.le_iff_toNat_le.2 (Nat.le_trans (by decide) hge), ?_, ?_⟩ <;>
        · intro h
          subst h
          exact absurd hge (by decide)
    · exact pieceBytes?_bytes _ done more

/-- Escaped characters are cut into pieces that name their bytes. -/
theorem exists_pieces_escaped (cs : List Char) (done : List Piece) (rest : List UInt8) :
    ∃ ps, pieces? done (cs.flatMap (fun c => encode (escapeChar c)) ++ Ascii.quote :: rest) =
        some (done.reverse ++ ps, rest) ∧
      ∀ front, pieceBytes? front ps =
        some (front.reverse ++ cs.flatMap String.utf8EncodeChar) := by
  induction cs generalizing done with
  | nil =>
    refine ⟨[], ?_, fun front => by simp [pieceBytes?]⟩
    rw [List.append_nil]
    exact pieces?.eq_2 done rest
  | cons c cs ih =>
    obtain ⟨ps, hpieces, hbytes⟩ := exists_pieces_escapeChar c
    obtain ⟨ps', hpieces', hbytes'⟩ := ih (ps.reverse ++ done)
    refine ⟨ps ++ ps', ?_, fun front => ?_⟩
    · rw [List.flatMap_cons, List.append_assoc, hpieces, hpieces', List.reverse_append,
        List.reverse_reverse, List.append_assoc]
    · rw [hbytes, hbytes', List.reverse_append, List.reverse_reverse, List.append_assoc,
        List.flatMap_cons]

theorem encode_quote (s : String) :
    encode (quote s) =
      Ascii.quote :: (s.toList.flatMap (fun c => encode (escapeChar c)) ++ [Ascii.quote]) := by
  have hfold : ∀ (cs : List Char) (out : String),
      encode (cs.foldl (fun out c => out ++ escapeChar c) out) =
        encode out ++ cs.flatMap fun c => encode (escapeChar c) := by
    intro cs
    induction cs with
    | nil => simp
    | cons c cs ih =>
      intro out
      rw [List.foldl_cons, ih, Utf8.encode_append, List.append_assoc, List.flatMap_cons]
  have hmark : encode "\"" = [Ascii.quote] := (Utf8.encode_eq_flatMap _).trans rfl
  rw [quote, Utf8.encode_append, String.foldl_eq_foldl_toList, hfold, hmark]
  rfl

theorem token?_pieces {bs rest : List UInt8} {ps : List Piece}
    (h : pieces? [] bs = some (ps, rest)) :
    token? Ascii.quote bs = some (.string (pieceText? ps), rest) := by
  show (pieces? [] bs).map _ = _
  rw [h]
  rfl

theorem token?_quote (s : String) (rest : List UInt8) :
    ∃ bs, encode (quote s) = Ascii.quote :: bs ∧
      token? Ascii.quote (bs ++ rest) = some (.string (some s), rest) := by
  refine ⟨_, encode_quote s, ?_⟩
  obtain ⟨ps, hpieces, hbytes⟩ := exists_pieces_escaped s.toList [] rest
  have htext : pieceText? ps = some s := by
    rw [pieceText?, hbytes]
    exact Utf8.fromUTF8?_eq_some_iff.2 (Utf8.encode_eq_flatMap s).symm
  rw [List.append_assoc, List.singleton_append, token?_pieces hpieces, List.reverse_nil,
    List.nil_append, htext]

theorem token?_garbled (rest : List UInt8) :
    ∃ bs, encode "\"\\ud800\"" = Ascii.quote :: bs ∧
      token? Ascii.quote (bs ++ rest) = some (.string none, rest) := by
  refine ⟨[Ascii.backslash, Ascii.lowerU, 0x64, 0x38, 0x30, 0x30, Ascii.quote],
    (Utf8.encode_eq_flatMap _).trans rfl, ?_⟩
  have hunit : unit? [0x64, 0x38, 0x30, 0x30] = some 0xD800 := rfl
  have hpieces : pieces? [] ([Ascii.backslash, Ascii.lowerU, 0x64, 0x38, 0x30, 0x30, Ascii.quote] ++
      rest) = some ([.unit 0xD800], rest) := by
    refine (pieces?.eq_3 [] 0x64 0x38 0x30 0x30 (Ascii.quote :: rest)).trans ?_
    rw [hunit]
    exact pieces?.eq_2 [.unit 0xD800] rest
  exact token?_pieces hpieces

/-! ## Numerals -/

/-- Whether a numeral ends before the given bytes: they begin with nothing that would continue
it. -/
def EndsNumeral (rest : List UInt8) : Prop :=
  ∀ b ∈ rest.head?, Ascii.isDigit b = false ∧ b ≠ Ascii.dot ∧ b ≠ Ascii.lowerE ∧ b ≠ Ascii.upperE

theorem takeDigits_append {ds rest : List UInt8} (hds : ∀ d ∈ ds, Ascii.isDigit d)
    (hrest : ∀ b ∈ rest.head?, Ascii.isDigit b = false) : takeDigits (ds ++ rest) = (ds, rest) := by
  have hnone : rest.takeWhile Ascii.isDigit = [] ∧ rest.dropWhile Ascii.isDigit = rest := by
    cases rest with
    | nil => exact ⟨rfl, rfl⟩
    | cons b rest =>
      have hb : Ascii.isDigit b = false := hrest b rfl
      simp [hb]
  rw [takeDigits, List.span_eq_takeWhile_dropWhile, List.takeWhile_append_of_pos hds,
    List.dropWhile_append_of_pos hds, hnone.1, hnone.2, List.append_nil]

/-- The digits of a number are digits, they are written without a needless zero, and they denote
the number. -/
theorem digits_repr (n : Nat) :
    (∀ d ∈ encode (Nat.repr n), Ascii.isDigit d) ∧
      (∃ d ds, encode (Nat.repr n) = d :: ds ∧ (n < 10 → ds = []) ∧ (0 < n → d ≠ Ascii.zero)) ∧
      decimal (encode (Nat.repr n)) = n := by
  have hsmall : ∀ k < 10, encode (Nat.repr k) = [Ascii.zero + k.toUInt8] ∧
      Ascii.isDigit (Ascii.zero + k.toUInt8) ∧ (0 < k → Ascii.zero + k.toUInt8 ≠ Ascii.zero) ∧
      (Ascii.zero + k.toUInt8).toNat - Ascii.zero.toNat = k := by
    simp only [Utf8.encode_eq_flatMap]
    decide
  induction n using Nat.strongRecOn with
  | ind n ih =>
    by_cases hn : n < 10
    · obtain ⟨hbytes, hdigit, hzero, hvalue⟩ := hsmall n hn
      refine ⟨?_, ⟨_, [], hbytes, fun _ => rfl, hzero⟩, ?_⟩
      · rw [hbytes]
        simpa using hdigit
      · rw [hbytes]
        simpa [decimal, Radix.value] using hvalue
    · obtain ⟨hdigits, ⟨d, ds, hfront, -, hzero⟩, hdecimal⟩ := ih (n / 10) (by omega)
      obtain ⟨hbytes, hdigit, -, hvalue⟩ := hsmall (n % 10) (by omega)
      have hrepr : encode (Nat.repr n) =
          encode (Nat.repr (n / 10)) ++ [Ascii.zero + (n % 10).toUInt8] := by
        rw [Nat.repr_eq_repr_append_repr (by omega), Utf8.encode_append, hbytes]
      refine ⟨?_, ⟨d, ds ++ [Ascii.zero + (n % 10).toUInt8], ?_, by omega, fun _ => ?_⟩, ?_⟩
      · intro b hb
        rw [hrepr, List.mem_append, List.mem_singleton] at hb
        rcases hb with hb | rfl
        · exact hdigits b hb
        · exact hdigit
      · rw [hrepr, hfront]
        rfl
      · exact hzero (by omega)
      · rw [decimal] at hdecimal ⊢
        rw [hrepr, List.map_append, List.map_singleton, Radix.value_append_singleton, hdecimal,
          hvalue]
        omega

theorem skipFraction?_eq {rest : List UInt8} (h : EndsNumeral rest) :
    skipFraction? rest = some (false, rest) := by
  cases rest with
  | nil => rfl
  | cons b rest =>
    rw [skipFraction?]
    intro rest' hrest
    exact (h b rfl).2.1 (List.cons.inj hrest).1

theorem skipExponent?_eq {rest : List UInt8} (h : EndsNumeral rest) :
    skipExponent? rest = some (false, rest) := by
  cases rest with
  | nil => rfl
  | cons b rest =>
    rw [skipExponent?]
    · intro rest' hrest
      exact (h b rfl).2.2.1 (List.cons.inj hrest).1
    · intro rest' hrest
      exact (h b rfl).2.2.2 (List.cons.inj hrest).1

/-- Digits are read with the fraction and the exponent that follow them. -/
theorem numeral?_digits {d : UInt8} {ds rest rest₁ rest₂ : List UInt8} {fraction exponent : Bool}
    (hds : ∀ b ∈ d :: ds, Ascii.isDigit b) (hplain : isPlain (d :: ds))
    (hrest : ∀ b ∈ rest.head?, Ascii.isDigit b = false)
    (hfraction : skipFraction? rest = some (fraction, rest₁))
    (hexponent : skipExponent? rest₁ = some (exponent, rest₂)) :
    numeral? (d :: ds ++ rest) =
      some (if fraction || exponent then .numeral else .natural (decimal (d :: ds)), rest₂) := by
  have hminus : d ≠ Ascii.minus := by
    intro heq
    subst heq
    exact absurd (hds _ (List.mem_cons_self ..)) (by decide)
  have hguard : (guard (isPlain (d :: ds)) : Option Unit) = some () := if_pos hplain
  rw [numeral?]
  · rw [takeDigits_append hds hrest]
    dsimp only
    rw [hguard]
    simp only [hfraction, hexponent, Option.bind_eq_bind, Option.bind_some, Bool.false_or]
    rfl
  · intro rest' hfront
    exact hminus (List.cons.inj hfront).1

/-! ## Tokens -/

/-- The bytes begin with the given tokens, behind which the given rest is left. -/
structure Lexes (bs : List UInt8) (ts : List Token) (rest : List UInt8) : Prop where
  length_le : ts.length + rest.length ≤ bs.length
  tokensFrom?_eq : ∀ done bound,
    tokensFrom? done (ts.length + bound) bs = tokensFrom? (ts.reverse ++ done) bound rest

namespace Lexes

variable {bs bs' rest : List UInt8} {ts ts' : List Token}

theorem refl (bs : List UInt8) : Lexes bs [] bs :=
  ⟨by simp, fun done bound => by simp⟩

theorem trans (h : Lexes bs ts bs') (h' : Lexes bs' ts' rest) : Lexes bs (ts ++ ts') rest := by
  refine ⟨?_, fun done bound => ?_⟩
  · have hle := h.length_le
    have hle' := h'.length_le
    rw [List.length_append]
    omega
  · rw [List.length_append, Nat.add_assoc, h.tokensFrom?_eq, h'.tokensFrom?_eq,
      List.reverse_append, List.append_assoc]

theorem token {b : UInt8} {t : Token} (hblank : isBlank b = false)
    (htoken : token? b bs = some (t, rest)) (hle : rest.length ≤ bs.length) :
    Lexes (b :: bs) [t] rest := by
  refine ⟨?_, fun done bound => ?_⟩
  · rw [List.length_singleton, List.length_cons]
    omega
  · rw [List.length_singleton, Nat.add_comm, tokensFrom?, hblank, htoken]
    rfl

theorem tokens? (h : Lexes bs ts []) : Json.tokens? bs = some ts := by
  obtain ⟨bound, hbound⟩ := Nat.exists_eq_add_of_le (Nat.le_of_add_right_le h.length_le)
  rw [Json.tokens?, hbound, h.tokensFrom?_eq, List.append_nil]
  simp [tokensFrom?]

end Lexes

theorem isBlank_of_isDigit {b : UInt8} (h : Ascii.isDigit b) : isBlank b = false := by
  simp only [isBlank, Bool.or_eq_false_iff, beq_eq_false_iff_ne]
  refine ⟨⟨⟨?_, ?_⟩, ?_⟩, ?_⟩ <;>
  · intro heq
    subst heq
    exact absurd h (by decide)

theorem token?_digit {b : UInt8} (rest : List UInt8) (h : Ascii.isDigit b) :
    token? b rest = (numeral? (b :: rest)).map fun (v, rest) => (.scalar v, rest) := by
  rw [token?] <;>
  · intro heq
    subst heq
    exact absurd h (by decide)

theorem keyword?_word (word : String) (v : Json) (rest : List UInt8) :
    keyword? word v (Ascii.word word ++ rest) = some (.scalar v, rest) := by
  have hfront : (Ascii.word word).isPrefixOf (Ascii.word word ++ rest) := by
    rw [List.isPrefixOf_iff_prefix]
    exact List.prefix_append _ _
  rw [keyword?]
  simp only [hfront, if_true, List.drop_left]

/-- The bytes of a text lex as the given tokens before anything that ends a numeral. -/
def Writes (text : String) (ts : List Token) : Prop :=
  ∀ rest, EndsNumeral rest → Lexes (encode text ++ rest) ts rest

theorem writes_quote (s : String) : Writes (quote s) [.string (some s)] := by
  intro rest _
  obtain ⟨bs, hbytes, htoken⟩ := token?_quote s rest
  rw [hbytes]
  exact .token rfl htoken (by simp)

theorem writes_garbled : Writes "\"\\ud800\"" [.string none] := by
  intro rest _
  obtain ⟨bs, hbytes, htoken⟩ := token?_garbled rest
  rw [hbytes]
  exact .token rfl htoken (by simp)

theorem writes_repr (n : Nat) : Writes (Nat.repr n) [.scalar (.natural n)] := by
  intro rest hrest
  obtain ⟨hdigits, ⟨d, ds, hbytes, hone, hzero⟩, hvalue⟩ := digits_repr n
  rw [hbytes] at hdigits hvalue ⊢
  have hplain : isPlain (d :: ds) := by
    cases ds with
    | nil => rfl
    | cons d' ds =>
      have hten : ¬ n < 10 := fun hn => List.cons_ne_nil _ _ (hone hn)
      have hne := hzero (by omega)
      simpa [isPlain] using hne
  have hdigit : Ascii.isDigit d := hdigits d (List.mem_cons_self ..)
  refine .token (isBlank_of_isDigit hdigit) ?_ (by simp)
  rw [token?_digit _ hdigit]
  show (numeral? (d :: ds ++ rest)).map _ = _
  rw [numeral?_digits hdigits hplain (fun b hb => (hrest b hb).1) (skipFraction?_eq hrest)
    (skipExponent?_eq hrest), hvalue]
  rfl

theorem writes_numeral : Writes "0.0" [.scalar .numeral] := by
  intro rest hrest
  have hbytes : encode "0.0" = [Ascii.zero, Ascii.dot, Ascii.zero] :=
    (Utf8.encode_eq_flatMap _).trans rfl
  have hdigit : ∀ b ∈ [Ascii.zero], Ascii.isDigit b := by
    intro b hb
    rw [List.mem_singleton.1 hb]
    rfl
  have hfraction : skipFraction? (Ascii.dot :: Ascii.zero :: rest) = some (true, rest) := by
    have hdigits : takeDigits (Ascii.zero :: rest) = ([Ascii.zero], rest) :=
      takeDigits_append hdigit fun b hb => (hrest b hb).1
    have hopen : skipFraction? (Ascii.dot :: Ascii.zero :: rest) =
        if (takeDigits (Ascii.zero :: rest)).1.isEmpty then none
        else some (true, (takeDigits (Ascii.zero :: rest)).2) := rfl
    rw [hopen, hdigits]
    rfl
  have hdot : ∀ b ∈ (Ascii.dot :: Ascii.zero :: rest).head?, Ascii.isDigit b = false := by
    rintro b ⟨⟩
    rfl
  have htoken : token? Ascii.zero (Ascii.dot :: Ascii.zero :: rest) =
      some (.scalar .numeral, rest) := by
    rw [token?_digit _ rfl]
    show (numeral? ([Ascii.zero] ++ Ascii.dot :: Ascii.zero :: rest)).map _ = _
    rw [numeral?_digits hdigit rfl hdot hfraction (skipExponent?_eq hrest)]
    rfl
  rw [hbytes]
  refine .token rfl htoken ?_
  show rest.length ≤ rest.length + 2
  omega

/-! ## The tokens of a value -/

mutual

/-- The tokens of the text of a value. -/
def tokensOf : Json → List Token
  | .text s => [.string (some s)]
  | .garbled => [.string none]
  | .array items => .openBracket :: (itemTokens [] items ++ [.closeBracket])
  | .object fields => .openBrace :: (fieldTokens [] fields ++ [.closeBrace])
  | v => [.scalar v]

/-- The tokens of the items of an array, each behind a separator that is a comma from the second
on. -/
def itemTokens (separator : List Token) : List Json → List Token
  | [] => []
  | item :: rest => separator ++ (tokensOf item ++ itemTokens [.comma] rest)

/-- The tokens of the fields of an object, each behind a separator that is a comma from the second
on. -/
def fieldTokens (separator : List Token) : List (Option String × Json) → List Token
  | [] => []
  | (key, value) :: rest =>
    separator ++ (.string key :: .colon :: (tokensOf value ++ fieldTokens [.comma] rest))

end

mutual

theorem renderOnto_eq (out : String) : (v : Json) → renderOnto out v = out ++ render v
  | .null | .bool true | .bool false | .natural _ | .numeral | .text _ | .garbled => by
    simp [renderOnto, render]
  | .array items => by
    rw [render, renderOnto, renderOnto, renderItems_eq _ _ items, renderItems_eq ("".push '[')]
    simp [String.push_eq_append, String.append_assoc]
  | .object fields => by
    rw [render, renderOnto, renderOnto, renderFields_eq _ _ fields,
      renderFields_eq ("".push '\x7b')]
    simp [String.push_eq_append, String.append_assoc]

theorem renderItems_eq (out separator : String) :
    (items : List Json) → renderItems out separator items = out ++ renderItems "" separator items
  | [] => by simp [renderItems]
  | item :: rest => by
    rw [renderItems, renderItems, renderItems_eq _ _ rest, renderOnto_eq _ item,
      renderItems_eq (renderOnto ("" ++ separator) item), renderOnto_eq _ item]
    simp [String.append_assoc]

theorem renderFields_eq (out separator : String) :
    (fields : List (Option String × Json)) →
      renderFields out separator fields = out ++ renderFields "" separator fields
  | [] => by simp [renderFields]
  | (key, value) :: rest => by
    simp only [renderFields]
    rw [renderFields_eq _ _ rest, renderOnto_eq _ value, renderFields_eq (renderOnto _ value),
      renderOnto_eq _ value]
    simp [String.append_assoc]

end

theorem writes_keyword {word : String} {v : Json} {b : UInt8} {bs : List UInt8}
    (hbytes : encode word = b :: bs) (hword : Ascii.word word = b :: bs) (hblank : isBlank b = false)
    (htoken : ∀ rest, token? b rest = keyword? word v (b :: rest)) :
    Writes word [.scalar v] := by
  intro rest _
  have hkeyword := keyword?_word word v rest
  rw [hword] at hkeyword
  rw [hbytes]
  exact .token hblank ((htoken _).trans hkeyword) (by simp)

theorem encode_comma : encode "," = [Ascii.comma] :=
  (Utf8.encode_eq_flatMap _).trans rfl

theorem lexes_comma (bs : List UInt8) : Lexes (encode "," ++ bs) [.comma] bs := by
  rw [encode_comma]
  exact .token rfl rfl (Nat.le_refl _)

theorem endsNumeral_cons {b : UInt8} {bs : List UInt8} (hdigit : Ascii.isDigit b = false)
    (hdot : b ≠ Ascii.dot) (he : b ≠ Ascii.lowerE) (hE : b ≠ Ascii.upperE) :
    EndsNumeral (b :: bs) := by
  intro b' hb'
  cases hb'
  exact ⟨hdigit, hdot, he, hE⟩

theorem endsNumeral_renderItems (items : List Json) {rest : List UInt8} (h : EndsNumeral rest) :
    EndsNumeral (encode (renderItems "" "," items) ++ rest) := by
  cases items with
  | nil => simpa [renderItems] using h
  | cons item items =>
    rw [renderItems, renderItems_eq, renderOnto_eq, Utf8.encode_append, Utf8.encode_append,
      String.empty_append, encode_comma]
    exact endsNumeral_cons rfl (by decide) (by decide) (by decide)

theorem endsNumeral_renderFields (fields : List (Option String × Json)) {rest : List UInt8}
    (h : EndsNumeral rest) : EndsNumeral (encode (renderFields "" "," fields) ++ rest) := by
  cases fields with
  | nil => simpa [renderFields] using h
  | cons field fields =>
    obtain ⟨key, value⟩ := field
    simp only [renderFields]
    rw [renderFields_eq, renderOnto_eq, Utf8.encode_append, Utf8.encode_append,
      Utf8.encode_append, Utf8.encode_append, String.empty_append, encode_comma]
    exact endsNumeral_cons rfl (by decide) (by decide) (by decide)

theorem encode_render_array (items : List Json) :
    encode (render (.array items)) =
      Ascii.openBracket :: (encode (renderItems "" "" items) ++ [Ascii.closeBracket]) := by
  have hopen : encode ("".push '[') = [Ascii.openBracket] := (Utf8.encode_eq_flatMap _).trans rfl
  have hclose : String.utf8EncodeChar ']' = [Ascii.closeBracket] := rfl
  rw [render, renderOnto, renderItems_eq, Utf8.encode_push, Utf8.encode_append, hopen, hclose]
  rfl

theorem encode_render_object (fields : List (Option String × Json)) :
    encode (render (.object fields)) =
      Ascii.openBrace :: (encode (renderFields "" "" fields) ++ [Ascii.closeBrace]) := by
  have hopen : encode ("".push '\x7b') = [Ascii.openBrace] := (Utf8.encode_eq_flatMap _).trans rfl
  have hclose : String.utf8EncodeChar '\x7d' = [Ascii.closeBrace] := rfl
  rw [render, renderOnto, renderFields_eq, Utf8.encode_push, Utf8.encode_append, hopen, hclose]
  rfl

theorem lexes_empty (bs : List UInt8) : Lexes (encode "" ++ bs) [] bs := by
  rw [Utf8.encode_empty]
  exact .refl bs

mutual

/-- The text of a value lexes as the tokens of the value. -/
theorem writes_render : (v : Json) → Writes (render v) (tokensOf v)
  | .null => writes_keyword ((Utf8.encode_eq_flatMap _).trans rfl) rfl rfl fun _ => rfl
  | .bool true => writes_keyword ((Utf8.encode_eq_flatMap _).trans rfl) rfl rfl fun _ => rfl
  | .bool false => writes_keyword ((Utf8.encode_eq_flatMap _).trans rfl) rfl rfl fun _ => rfl
  | .natural n => by
    rw [render, renderOnto, String.empty_append]
    exact writes_repr n
  | .numeral => writes_numeral
  | .text s => by
    rw [render, renderOnto, String.empty_append]
    exact writes_quote s
  | .garbled => writes_garbled
  | .array items => by
    intro rest _
    have hends : EndsNumeral (Ascii.closeBracket :: rest) :=
      endsNumeral_cons rfl (by decide) (by decide) (by decide)
    have hopen := fun bs => Lexes.token (b := Ascii.openBracket) (t := .openBracket) rfl rfl
      (Nat.le_refl (List.length bs))
    have hclose := Lexes.token (b := Ascii.closeBracket) (t := .closeBracket) rfl rfl
      (Nat.le_refl rest.length)
    have hitems := lexes_renderItems lexes_empty items hends
    rw [encode_render_array, tokensOf, List.cons_append, List.append_assoc]
    exact (hopen _).trans (hitems.trans hclose)
  | .object fields => by
    intro rest _
    have hends : EndsNumeral (Ascii.closeBrace :: rest) :=
      endsNumeral_cons rfl (by decide) (by decide) (by decide)
    have hopen := fun bs => Lexes.token (b := Ascii.openBrace) (t := .openBrace) rfl rfl
      (Nat.le_refl (List.length bs))
    have hclose := Lexes.token (b := Ascii.closeBrace) (t := .closeBrace) rfl rfl
      (Nat.le_refl rest.length)
    have hfields := lexes_renderFields lexes_empty fields hends
    rw [encode_render_object, tokensOf, List.cons_append, List.append_assoc]
    exact (hopen _).trans (hfields.trans hclose)

theorem lexes_renderItems {separator : String} {ts : List Token}
    (hseparator : ∀ bs, Lexes (encode separator ++ bs) ts bs) :
    (items : List Json) → {rest : List UInt8} → EndsNumeral rest →
      Lexes (encode (renderItems "" separator items) ++ rest) (itemTokens ts items) rest
  | [], rest, _ => by
    rw [renderItems, itemTokens]
    exact lexes_empty rest
  | item :: items, rest, hrest => by
    have hitem := writes_render item _ (endsNumeral_renderItems items hrest)
    have hitems := lexes_renderItems lexes_comma items hrest
    rw [renderItems, renderItems_eq, renderOnto_eq, Utf8.encode_append, Utf8.encode_append,
      String.empty_append, List.append_assoc, List.append_assoc, itemTokens]
    exact (hseparator _).trans (hitem.trans hitems)

theorem lexes_renderFields {separator : String} {ts : List Token}
    (hseparator : ∀ bs, Lexes (encode separator ++ bs) ts bs) :
    (fields : List (Option String × Json)) → {rest : List UInt8} → EndsNumeral rest →
      Lexes (encode (renderFields "" separator fields) ++ rest) (fieldTokens ts fields) rest
  | [], rest, _ => by
    rw [renderFields, fieldTokens]
    exact lexes_empty rest
  | (key, value) :: fields, rest, hrest => by
    have hvalue := writes_render value _ (endsNumeral_renderFields fields hrest)
    have hfields := lexes_renderFields lexes_comma fields hrest
    have hcolon : encode ":" = [Ascii.colon] := (Utf8.encode_eq_flatMap _).trans rfl
    have hkey : ∀ bs, Lexes (encode (match key with
        | some k => quote k
        | none => "\"\\ud800\"") ++ Ascii.colon :: bs) [.string key, .colon] bs := by
      intro bs
      have hends : EndsNumeral (Ascii.colon :: bs) :=
        endsNumeral_cons rfl (by decide) (by decide) (by decide)
      have hmark := Lexes.token (b := Ascii.colon) (t := .colon) rfl rfl (Nat.le_refl bs.length)
      cases key with
      | none => exact (writes_garbled _ hends).trans hmark
      | some k => exact (writes_quote k _ hends).trans hmark
    simp only [renderFields]
    rw [renderFields_eq, renderOnto_eq, Utf8.encode_append, Utf8.encode_append,
      Utf8.encode_append, Utf8.encode_append, String.empty_append, hcolon, fieldTokens]
    simp only [List.append_assoc]
    exact (hseparator _).trans ((hkey _).trans (hvalue.trans hfields))

end

theorem tokens?_render (v : Json) : tokens? (encode (render v)) = some (tokensOf v) := by
  have h := writes_render v [] (fun b hb => nomatch hb)
  rw [List.append_nil] at h
  exact h.tokens?

/-! ## Reading the tokens -/

/-- The tokens take the reader from one state to another. -/
def Reads (r : Reader) (ts : List Token) (r' : Reader) : Prop :=
  ts.foldlM Reader.step r = some r'

theorem Reads.refl (r : Reader) : Reads r [] r :=
  rfl

theorem Reads.trans {r r' r'' : Reader} {ts ts' : List Token} (h : Reads r ts r')
    (h' : Reads r' ts' r'') : Reads r (ts ++ ts') r'' := by
  rw [Reads, List.foldlM_append, h]
  exact h'

theorem Reads.cons {r r' r'' : Reader} {t : Token} {ts : List Token} (h : r.step t = some r')
    (h' : Reads r' ts r'') : Reads r (t :: ts) r'' := by
  rw [Reads, List.foldlM_cons, h]
  exact h'

theorem Reads.firstItem {stack : List Layer} {r : Reader} {v : Json} {ts : List Token}
    (h : Reads ⟨stack, .value⟩ (tokensOf v ++ ts) r) :
    Reads ⟨stack, .firstItem⟩ (tokensOf v ++ ts) r := by
  cases v <;> exact h

mutual

/-- The tokens of a value give the value. -/
theorem reads_tokensOf (stack : List Layer) :
    (v : Json) → Reads ⟨stack, .value⟩ (tokensOf v) (.give v stack)
  | .null | .bool _ | .natural _ | .numeral | .text _ | .garbled => rfl
  | .array [] => rfl
  | .array (item :: items) => by
    have hitem := reads_tokensOf (.array [] :: stack) item
    have hitems := reads_itemTokens [item] stack items
    have hclose : Reader.step ⟨.array (items.reverse ++ [item]) :: stack, .separator⟩ .closeBracket =
        some (.give (.array (item :: items)) stack) := by
      show some (Reader.give (.array (items.reverse ++ [item]).reverse) stack) = _
      rw [List.reverse_append, List.reverse_reverse]
      rfl
    have hread := hitem.trans (hitems.trans (.cons hclose (.refl _)))
    rw [tokensOf, itemTokens, List.nil_append, List.append_assoc]
    exact .cons rfl hread.firstItem
  | .object [] => rfl
  | .object ((key, value) :: fields) => by
    have hvalue := reads_tokensOf (.object [] key :: stack) value
    obtain ⟨last, hfields⟩ := reads_fieldTokens [(key, value)] stack key fields
    have hclose : Reader.step
        ⟨.object (fields.reverse ++ [(key, value)]) last :: stack, .separator⟩ .closeBrace =
        some (.give (.object ((key, value) :: fields)) stack) := by
      show some (Reader.give (.object (fields.reverse ++ [(key, value)]).reverse) stack) = _
      rw [List.reverse_append, List.reverse_reverse]
      rfl
    have hread := hvalue.trans (hfields.trans (.cons hclose (.refl _)))
    rw [tokensOf, fieldTokens, List.nil_append, List.cons_append, List.cons_append,
      List.append_assoc]
    exact .cons rfl (.cons rfl (.cons rfl hread))

theorem reads_itemTokens (done : List Json) (stack : List Layer) :
    (items : List Json) → Reads ⟨.array done :: stack, .separator⟩ (itemTokens [.comma] items)
      ⟨.array (items.reverse ++ done) :: stack, .separator⟩
  | [] => rfl
  | item :: items => by
    have hitem := reads_tokensOf (.array done :: stack) item
    have hitems := reads_itemTokens (item :: done) stack items
    rw [itemTokens, List.reverse_cons, List.append_assoc]
    exact .cons rfl (hitem.trans hitems)

theorem reads_fieldTokens (done : List (Option String × Json)) (stack : List Layer)
    (last : Option String) :
    (fields : List (Option String × Json)) → ∃ key,
      Reads ⟨.object done last :: stack, .separator⟩ (fieldTokens [.comma] fields)
        ⟨.object (fields.reverse ++ done) key :: stack, .separator⟩
  | [] => ⟨last, rfl⟩
  | (key, value) :: fields => by
    have hvalue := reads_tokensOf (.object done key :: stack) value
    obtain ⟨key', hfields⟩ := reads_fieldTokens ((key, value) :: done) stack key fields
    refine ⟨key', ?_⟩
    rw [fieldTokens, List.reverse_cons, List.append_assoc]
    exact .cons rfl (.cons rfl (.cons rfl (hvalue.trans hfields)))

end

/-- **Reading JSON undoes writing it.** The text of a value is read as the value. -/
theorem parse?_render (v : Json) : parse? (encode (render v)) = some v := by
  have hread : (tokensOf v).foldlM Reader.step Reader.start = some (.give v []) :=
    reads_tokensOf [] v
  rw [parse?, tokens?_render]
  simp only [Option.bind_eq_bind, Option.bind_some, hread]
  rfl

end PeerCluster.Json
