import Mathlib.Data.List.Basic
import PeerCluster.Net.Printer
import PeerCluster.Net.Reader

/-!
# Reading an address undoes writing it

**Theorem (`ofText?_render`).** The text of an address, and of an address with a port, is read back as
the address, in either version.

Every reader takes the text of its part off the front and leaves what follows, as long as that does not
look like more of the same part: it starts with none of the digits (`Ends`).

* *Numbers* (`number?_toDigits`): the digits of a number are read back as the number.
* *Groups* (`takeGroups_renderGroups`): groups with colons between are read back, up to the end of the
  address or to two colons (`Stops`). No group is taken for an address of version 4, as no dot follows.
* *Zeros* (`isRun_longestRun`): the run that is left out consists of zero groups, and it is as long as
  the groups that are missing.
-/

namespace PeerCluster

namespace Net

/-! ## Numbers -/

/-- Whether no digit comes next. -/
def Ends (cs : List Char) : Prop :=
  ∀ c ∈ cs.head?, Hex.value? c = none

theorem ends_nil : Ends [] :=
  nofun

theorem ends_cons {c : Char} (h : Hex.value? c = none) (cs : List Char) : Ends (c :: cs) := by
  intro c' hc'
  rw [List.head?_cons, Option.mem_some_iff] at hc'
  exact hc' ▸ h

theorem takeDigits_of_ends {cs : List Char} (base : Nat) (h : Ends cs) : takeDigits base cs = ([], cs) := by
  cases cs with
  | nil => rfl
  | cons c cs => rw [takeDigits, digitValue?, h c rfl, Option.filter_none]

theorem takeDigits_append {base : Nat} {cs rest : List Char} {ds : List Nat}
    (hds : cs.map (digitValue? base) = ds.map some) (hrest : Ends rest) :
    takeDigits base (cs ++ rest) = (ds, rest) := by
  induction cs generalizing ds with
  | nil =>
    obtain rfl : ds = [] := List.map_eq_nil_iff.1 hds.symm
    exact takeDigits_of_ends base hrest
  | cons c cs ih =>
    cases ds with
    | nil => cases hds
    | cons d ds =>
      rw [List.map_cons, List.map_cons, List.cons.injEq] at hds
      rw [List.cons_append, takeDigits, hds.1, ih hds.2]

theorem digitValue?_digitChar {base d : Nat} (hbase : base ≤ 16) (hd : d < base) :
    digitValue? base (Nat.digitChar d) = some d := by
  have hvalue : ∀ d < 16, Hex.value? (Nat.digitChar d) = some d := by decide
  rw [digitValue?, hvalue d (by omega), Option.filter_some, if_pos (decide_eq_true hd)]

/-- The digits of a number denote the number, and none of them is a needless zero in front. -/
theorem exists_digits {base : Nat} (hbase : 1 < base) (hbase' : base ≤ 16) (n : Nat) :
    ∃ d ds, (Nat.toDigits base n).map (digitValue? base) = (d :: ds).map some ∧
      Radix.value base (d :: ds) = n ∧ (n < base → ds = []) ∧ (0 < n → d ≠ 0) := by
  induction n using Nat.strongRecOn with
  | ind n ih =>
    by_cases hn : n < base
    · refine ⟨n, [], ?_, ?_, fun _ => rfl, Nat.ne_of_gt⟩
      · rw [Nat.toDigits_of_lt_base hn]
        exact congrArg (fun d => [d]) (digitValue?_digitChar hbase' hn)
      · simp [Radix.value]
    · have hpos : 0 < n / base := Nat.div_pos (by omega) (by omega)
      obtain ⟨d, ds, hdigits, hvalue, -, hzero⟩ := ih (n / base) (Nat.div_lt_self (by omega) hbase)
      have hlast : n % base < base := Nat.mod_lt n (by omega)
      refine ⟨d, ds ++ [n % base], ?_, ?_, fun h => absurd h hn, fun _ => hzero hpos⟩
      · rw [Nat.toDigits_eq_if hbase, if_neg hn, List.map_append, hdigits, List.map_singleton,
          digitValue?_digitChar hbase' hlast, ← List.cons_append, List.map_append]
        rfl
      · rw [← List.cons_append, Radix.value_append_singleton, hvalue, Nat.mul_comm]
        exact Nat.div_add_mod n base

/-- The digits of a number are read back as the number. -/
theorem number?_toDigits (form : Numeral) {bound n : Nat} {rest : List Char} (hbase : 1 < form.base)
    (hbase' : form.base ≤ 16) (hwidest : ∀ w ∈ form.widest, 0 < w ∧ n < Nat.pow form.base w)
    (hbound : n < bound) (hrest : Ends rest) :
    number? form bound (Nat.toDigits form.base n ++ rest) = some (n, rest) := by
  obtain ⟨d, ds, hdigits, hvalue, hshort, hzero⟩ := exists_digits hbase hbase' n
  have hlength : (d :: ds).length = (Nat.toDigits form.base n).length := by
    rw [← List.length_map some, ← hdigits, List.length_map]
  have hwide : form.widest.any (· < (d :: ds).length) = false := by
    cases hform : form.widest with
    | none => rfl
    | some w =>
      obtain ⟨hw, hlt⟩ := hwidest w hform
      have hle := (Nat.length_toDigits_le_iff hbase hw).2 hlt
      exact decide_eq_false (by omega)
  have hplain : (!form.leadingZeros && (d :: ds).head? == some 0 &&
      decide (1 < (d :: ds).length)) = false := by
    rcases Nat.eq_zero_or_pos n with rfl | hn
    · rw [hshort (by omega)]
      exact Bool.and_false _
    · have hne : ((d :: ds).head? == some 0) = false := beq_false_of_ne fun h => hzero hn (Option.some.inj h)
      rw [hne, Bool.and_false, Bool.false_and]
  rw [number?, takeDigits_append hdigits hrest]
  simp only [hvalue, hwide, hplain, Bool.or_false, List.isEmpty_cons, Bool.false_eq_true, if_false]
  rw [if_neg (Nat.not_le.2 hbound)]

/-- There is no number where no digit is. -/
theorem number?_of_ends {cs : List Char} (form : Numeral) (bound : Nat) (h : Ends cs) :
    number? form bound cs = none := by
  rw [number?, takeDigits_of_ends form.base h]
  rfl

theorem after?_self (c : Char) (cs : List Char) : after? c (c :: cs) = some cs :=
  if_pos rfl

theorem after?_eq_none {c : Char} {cs : List Char} (h : cs.head? ≠ some c) : after? c cs = none := by
  cases cs with
  | nil => rfl
  | cons d cs => exact if_neg fun heq => h (congrArg some heq)

/-! ## Version 4 -/

theorem octet?_repr (o : UInt8) {rest : List Char} (h : Ends rest) :
    octet? ((Nat.repr o.toNat).toList ++ rest) = some (o, rest) := by
  have hnumber : number? .octet UInt8.size (Nat.toDigits 10 o.toNat ++ rest) = some (o.toNat, rest) := by
    refine number?_toDigits .octet (by decide) (by decide) ?_ o.toNat_lt h
    rintro w ⟨⟩
    exact ⟨by decide, Nat.lt_trans o.toNat_lt (by decide)⟩
  rw [octet?, Nat.toList_repr, hnumber]
  simp

theorem exists_octets (ip : IPv4) : ∃ a b c d, ip = .ofOctets a b c d := by
  obtain ⟨⟨⟨octets⟩, hsize⟩⟩ := ip
  match octets, hsize with
  | [a, b, c, d], _ => exact ⟨a, b, c, d, rfl⟩

theorem toList_render_ofOctets (a b c d : UInt8) :
    (IPv4.ofOctets a b c d).render.toList =
      (Nat.repr a.toNat).toList ++ '.' :: ((Nat.repr b.toNat).toList ++
        '.' :: ((Nat.repr c.toNat).toList ++ '.' :: (Nat.repr d.toNat).toList)) := by
  rw [IPv4.render, String.toList_intercalate]
  simp [IPv4.ofOctets, List.intercalate]

/-- An address of version 4 is read back. -/
theorem ipv4?_render (ip : IPv4) {rest : List Char} (h : Ends rest) :
    ipv4? (ip.render.toList ++ rest) = some (ip, rest) := by
  obtain ⟨a, b, c, d, rfl⟩ := exists_octets ip
  have hdot : ∀ cs, Ends ('.' :: cs) := ends_cons rfl
  rw [toList_render_ofOctets, ipv4?]
  simp only [List.append_assoc, List.cons_append, octet?_repr _ (hdot _), octet?_repr _ h, after?_self,
    Option.bind_eq_bind, Option.bind_some, Option.pure_def]

theorem rest_of_number? {form : Numeral} {bound n : Nat} {cs rest : List Char}
    (h : number? form bound cs = some (n, rest)) : (takeDigits form.base cs).2 = rest := by
  rw [number?] at h
  dsimp only at h
  split at h
  next => cases h
  next =>
    split at h
    next => cases h
    next =>
      split at h
      next => cases h
      next => exact (Prod.mk.inj (Option.some.inj h)).2

/-- No address of version 4 is found where no dot follows the digits. -/
theorem ipv4?_eq_none {cs : List Char} (h : (takeDigits 10 cs).2.head? ≠ some '.') : ipv4? cs = none := by
  rw [ipv4?, octet?]
  cases hnumber : number? .octet UInt8.size cs with
  | none => rfl
  | some found =>
    have hrest : (takeDigits 10 cs).2 = found.2 := rest_of_number? hnumber
    simp only [Option.bind_eq_bind, Option.bind_some, Option.pure_def,
      after?_eq_none (hrest ▸ h), Option.bind_none]

theorem ipv4?_of_ends {cs : List Char} (h : Ends cs) (hdot : cs.head? ≠ some '.') : ipv4? cs = none :=
  ipv4?_eq_none (by rw [takeDigits_of_ends 10 h]; exact hdot)

/-! ## Groups -/

/-- The digits of a group. -/
def groupText (g : UInt16) : List Char :=
  Nat.toDigits 16 g.toNat

/-- Groups with a colon before every one. -/
def colonTexts (gs : List UInt16) : List Char :=
  gs.flatMap fun g => ':' :: groupText g

/-- Whether the groups end here: the address ends, or two colons come next. -/
def Stops (cs : List Char) : Prop :=
  (∀ c ∈ cs.head?, c = ']' ∨ c = '%') ∨ ∃ rest, cs = ':' :: ':' :: rest

/-- Whether what comes next continues no group, and is no dot. -/
structure EndsGroup (cs : List Char) : Prop where
  ends : Ends cs
  noDot : cs.head? ≠ some '.'

theorem endsGroup_colon (cs : List Char) : EndsGroup (':' :: cs) :=
  ⟨ends_cons rfl cs, nofun⟩

theorem Stops.endsGroup {cs : List Char} (h : Stops cs) : EndsGroup cs := by
  obtain h | ⟨rest, rfl⟩ := h
  · refine ⟨fun c hc => ?_, fun hdot => ?_⟩
    · obtain rfl | rfl := h c hc
      · rfl
      · rfl
    · exact (h '.' hdot).elim nofun nofun
  · exact endsGroup_colon _

theorem endsGroup_colonTexts (gs : List UInt16) {rest : List Char} (h : EndsGroup rest) :
    EndsGroup (colonTexts gs ++ rest) := by
  cases gs with
  | nil => exact h
  | cons g gs => exact endsGroup_colon _

theorem toList_renderGroups_cons (g : UInt16) (gs : List UInt16) :
    (IPv6.renderGroups (g :: gs)).toList = groupText g ++ colonTexts gs := by
  have hshortest : ∀ g : UInt16, (Hex.shortest g.toNat).toList = groupText g := fun g =>
    String.toList_ofList
  rw [IPv6.renderGroups, String.toList_intercalate]
  induction gs generalizing g with
  | nil => simp [List.intercalate, hshortest, colonTexts]
  | cons g' gs ih =>
    have hrest := ih g'
    simp only [List.map_cons] at hrest ⊢
    rw [List.intercalate_cons_cons, hrest, hshortest, List.append_assoc]
    rfl

theorem number?_groupText (g : UInt16) {rest : List Char} (h : Ends rest) :
    number? .group UInt16.size (groupText g ++ rest) = some (g.toNat, rest) := by
  refine number?_toDigits .group (by decide) (by decide) ?_ g.toNat_lt h
  rintro w ⟨⟩
  exact ⟨by decide, g.toNat_lt⟩

/-- The decimal digits at the front of a group end inside it or with it. -/
theorem ipv4?_groupText (g : UInt16) {rest : List Char} (h : EndsGroup rest) :
    ipv4? (groupText g ++ rest) = none := by
  have hchars : ∀ c ∈ groupText g, c ≠ '.' := by
    intro c hc hdot
    obtain ⟨d, ds, hdigits, -⟩ := exists_digits (show 1 < 16 by decide) (by decide) g.toNat
    have hmem : digitValue? 16 c ∈ (d :: ds).map some := hdigits ▸ List.mem_map_of_mem hc
    obtain ⟨d', -, hd'⟩ := List.mem_map.1 hmem
    rw [hdot] at hd'
    cases hd'
  refine ipv4?_eq_none ?_
  generalize groupText g = cs at hchars
  induction cs with
  | nil =>
    rw [List.nil_append, takeDigits_of_ends 10 h.ends]
    exact h.noDot
  | cons c cs ih =>
    rw [List.cons_append, takeDigits]
    split
    next => exact ih fun c' hc' => hchars c' (List.mem_cons_of_mem _ hc')
    next => exact fun hdot => hchars c List.mem_cons_self (Option.some.inj hdot)

/-- One group is read. -/
theorem takeGroups_group (first : Bool) (room : Nat) (g : UInt16) {rest : List Char} (h : EndsGroup rest) :
    takeGroups first (room + 1) ((if first then [] else [':']) ++ (groupText g ++ rest)) =
      { takeGroups false room rest with found := g :: (takeGroups false room rest).found } := by
  have hstart : (if first then some ((if first then [] else [':']) ++ (groupText g ++ rest))
      else after? ':' ((if first then [] else [':']) ++ (groupText g ++ rest))) =
        some (groupText g ++ rest) := by
    cases first <;> rfl
  have hfour : (if room = 0 then none else ipv4? (groupText g ++ rest)) = none := by
    split
    · rfl
    · exact ipv4?_groupText g h
  rw [takeGroups, hstart]
  simp only [hfour, number?_groupText g h.ends, Nat.toUInt16_eq, UInt16.ofNat_toNat]

/-- An address of version 4 is read in place of the last two groups. -/
theorem takeGroups_render (room : Nat) (four : IPv4) {rest : List Char} (h : Ends rest) :
    takeGroups false (room + 2) (':' :: (four.render.toList ++ rest)) = ⟨four.words, true, rest⟩ := by
  rw [takeGroups, if_neg nofun, after?_self]
  dsimp only
  rw [if_neg (Nat.succ_ne_zero room), ipv4?_render four h]

theorem takeGroups_of_stops (first : Bool) (room : Nat) {rest : List Char} (h : Stops rest) :
    takeGroups first room rest = ⟨[], false, rest⟩ := by
  cases room with
  | zero => rfl
  | succ room =>
    have hnone : ∀ {cs}, EndsGroup cs → (if room = 0 then none else ipv4? cs) = none ∧
        number? .group UInt16.size cs = none := by
      intro cs hcs
      refine ⟨?_, number?_of_ends _ _ hcs.ends⟩
      split
      · rfl
      · exact ipv4?_of_ends hcs.ends hcs.noDot
    rw [takeGroups]
    split
    next => rfl
    next start hstart =>
      have hends : EndsGroup start := by
        cases first with
        | true => exact Option.some.inj hstart ▸ h.endsGroup
        | false =>
          obtain h | ⟨more, rfl⟩ := h
          · rw [if_neg nofun, after?_eq_none fun hcolon => (h ':' hcolon).elim nofun nofun] at hstart
            cases hstart
          · rw [if_neg nofun, after?_self] at hstart
            exact Option.some.inj hstart ▸ endsGroup_colon more
      simp only [hnone hends]

theorem takeGroups_colonTexts {gs : List UInt16} {room : Nat} {rest : List Char}
    (hroom : gs.length ≤ room) (h : Stops rest) :
    takeGroups false room (colonTexts gs ++ rest) = ⟨gs, false, rest⟩ := by
  induction gs generalizing room with
  | nil => exact takeGroups_of_stops false room h
  | cons g gs ih =>
    obtain ⟨room, rfl⟩ : ∃ k, room = k + 1 := ⟨room - 1, by rw [List.length_cons] at hroom; omega⟩
    have hstep := takeGroups_group false room g (endsGroup_colonTexts gs h.endsGroup)
    rw [ih (Nat.le_of_succ_le_succ hroom)] at hstep
    rw [← hstep]
    simp [colonTexts]

/-- Groups with colons between are read back. -/
theorem takeGroups_renderGroups {gs : List UInt16} {room : Nat} {rest : List Char}
    (hroom : gs.length ≤ room) (h : Stops rest) :
    takeGroups true room ((IPv6.renderGroups gs).toList ++ rest) = ⟨gs, false, rest⟩ := by
  cases gs with
  | nil => exact takeGroups_of_stops true room h
  | cons g gs =>
    obtain ⟨room, rfl⟩ : ∃ k, room = k + 1 := ⟨room - 1, by rw [List.length_cons] at hroom; omega⟩
    have hstep := takeGroups_group true room g (endsGroup_colonTexts gs h.endsGroup)
    rw [takeGroups_colonTexts (Nat.le_of_succ_le_succ hroom) h] at hstep
    rw [toList_renderGroups_cons, List.append_assoc]
    exact hstep

end Net

namespace IPv6

/-! ## The run that is left out -/

/-- A run of zero groups. -/
def IsRun (r : Run) (gs : List UInt16) : Prop :=
  ∃ front back, gs = front ++ (List.replicate r.length 0 ++ back) ∧ front.length = r.start

theorem IsRun.append {r : Run} {gs : List UInt16} (h : IsRun r gs) (more : List UInt16) :
    IsRun r (gs ++ more) := by
  obtain ⟨front, back, rfl, hstart⟩ := h
  exact ⟨front, back ++ more, by simp only [List.append_assoc], hstart⟩

/-- The groups so far end in a run of zero groups that may go on. -/
def EndsInRun (r : Run) (gs : List UInt16) : Prop :=
  ∃ front, gs = front ++ List.replicate r.length 0 ∧ (r.length ≠ 0 → front.length = r.start)

theorem EndsInRun.isRun {r : Run} {gs : List UInt16} (h : EndsInRun r gs) (hlength : r.length ≠ 0) :
    IsRun r gs := by
  obtain ⟨front, rfl, hstart⟩ := h
  exact ⟨front, [], by rw [List.append_nil], hstart hlength⟩

/-- A run goes on with one more zero group, or begins with it. -/
theorem EndsInRun.grow {r : Run} {gs : List UInt16} (h : EndsInRun r gs) :
    EndsInRun (if r.length = 0 then ⟨gs.length, 1⟩ else ⟨r.start, r.length + 1⟩) (gs ++ [0]) := by
  split
  next => exact ⟨gs, rfl, fun _ => rfl⟩
  next hlength =>
    obtain ⟨front, rfl, hstart⟩ := h
    refine ⟨front, ?_, fun _ => hstart hlength⟩
    rw [List.append_assoc, ← List.replicate_succ']

theorem isRun_longestRun {current longest : Run} {seen : List UInt16} {place : Nat}
    (hplace : seen.length = place) (hcurrent : EndsInRun current seen) (hlongest : IsRun longest seen)
    (rest : List UInt16) : IsRun (longestRun current longest place rest) (seen ++ rest) := by
  induction rest generalizing current longest seen place with
  | nil =>
    rw [longestRun, List.append_nil]
    exact hlongest
  | cons g rest ih =>
    have hplace' : (seen ++ [g]).length = place + 1 := by rw [List.length_append, hplace]; rfl
    rw [longestRun, List.append_cons]
    split
    next hzero =>
      subst hzero
      have hgrown := hcurrent.grow
      rw [hplace] at hgrown
      have hlength : (if current.length = 0 then (⟨place, 1⟩ : Run)
          else ⟨current.start, current.length + 1⟩).length ≠ 0 := by
        split <;> nofun
      generalize (if current.length = 0 then (⟨place, 1⟩ : Run)
          else ⟨current.start, current.length + 1⟩) = current' at hgrown hlength
      refine ih hplace' hgrown ?_
      split
      next => exact hgrown.isRun hlength
      next => exact hlongest.append _
    next => exact ih hplace' ⟨seen ++ [g], by simp, nofun⟩ (hlongest.append _)

/-- The groups are those before the longest run, its zeros, and those after it. -/
theorem groups_split {gs : List UInt16} {r : Run} (h : longestRun ⟨0, 0⟩ ⟨0, 0⟩ 0 gs = r) :
    ∃ front back, gs = front ++ (List.replicate r.length 0 ++ back) ∧ front = gs.take r.start ∧
      back = gs.drop (r.start + r.length) := by
  have hrun : IsRun r gs := by
    have hempty : IsRun ⟨0, 0⟩ ([] : List UInt16) := ⟨[], [], rfl, rfl⟩
    have hnone : EndsInRun ⟨0, 0⟩ ([] : List UInt16) := ⟨[], rfl, nofun⟩
    exact h ▸ isRun_longestRun rfl hnone hempty gs
  obtain ⟨front, back, rfl, hstart⟩ := hrun
  refine ⟨front, back, rfl, ?_, ?_⟩
  · rw [← hstart, List.take_left]
  · rw [← hstart, ← List.append_assoc, List.drop_left' (by simp)]

/-! ## Version 6 -/

/-- The bytes of a group give the group. -/
theorem word_bytes (g : UInt16) : IPv4.word (g >>> 8).toUInt8 g.toUInt8 = g := by
  have hlt := g.toNat_lt
  have hhigh : g.toNat / 256 < 256 := by omega
  have hor := Nat.shiftLeft_add_eq_or_of_lt (i := 8) (b := g.toNat % 256) (Nat.mod_lt _ (by decide))
    (g.toNat / 256)
  apply UInt16.toNat_inj.1
  calc (IPv4.word (g >>> 8).toUInt8 g.toUInt8).toNat
    _ = (g.toNat >>> 8 % 256) <<< 8 % 65536 ||| g.toNat % 256 := by simp [IPv4.word]
    _ = (g.toNat / 256) <<< 8 ||| g.toNat % 256 := by
      rw [Nat.shiftRight_eq_div_pow, Nat.mod_eq_of_lt hhigh, Nat.shiftLeft_eq,
        Nat.mod_eq_of_lt (b := 65536) (by omega)]
    _ = g.toNat := by
      rw [← hor, Nat.shiftLeft_eq]
      omega

/-- An address that stands for one of version 4 has its bytes in the last two groups. -/
theorem groups_of_mapped? {ip : IPv6} {four : IPv4} (h : ip.mapped? = some four) :
    ip.groups.toList = [0, 0, 0, 0, 0, 0xFFFF] ++ four.words := by
  obtain ⟨⟨⟨groups⟩, hsize⟩⟩ := ip
  match groups, hsize with
  | [a, b, c, d, e, f, g, h'], _ =>
    rw [mapped?] at h
    split at h
    next hprefix =>
      obtain rfl := Option.some.inj h
      show [a, b, c, d, e, f, g, h'] = [0, 0, 0, 0, 0, 0xFFFF, IPv4.word (g >>> 8).toUInt8 g.toUInt8,
        IPv4.word (h' >>> 8).toUInt8 h'.toUInt8]
      rw [word_bytes, word_bytes]
      exact congrArg (· ++ [g, h']) hprefix
    next => cases h

theorem ofGroups?_toList (ip : IPv6) : Net.ofGroups? ip.groups.toList = some ip := by
  have hlength : ip.groups.toList.length = 8 := Vector.length_toList
  rw [Net.ofGroups?, dif_pos hlength]
  rfl

end IPv6

namespace Net

/-- No group is missing. -/
theorem ipv6?_of_full {gs : List UInt16} {dotted : Bool} {cs rest : List Char}
    (h : takeGroups true 8 cs = ⟨gs, dotted, rest⟩) (hlength : gs.length = 8) :
    ipv6? cs = (ofGroups? gs).map fun ip => (ip, rest) := by
  rw [ipv6?, h]
  refine (if_pos hlength).trans ?_
  cases ofGroups? gs <;> rfl

/-- Two colons stand for the groups that are missing. -/
theorem ipv6?_of_colons {front back : List UInt16} {dotted : Bool} {cs middle rest : List Char}
    (hfront : takeGroups true 8 cs = ⟨front, false, ':' :: ':' :: middle⟩) (hlength : front.length ≠ 8)
    (hback : takeGroups true (7 - front.length) middle = ⟨back, dotted, rest⟩) :
    ipv6? cs = (ofGroups? (front ++ List.replicate (8 - front.length - back.length) 0 ++ back)).map
      fun ip => (ip, rest) := by
  have hguard : (guard ((!false) = true) : Option Unit) = some () := rfl
  rw [ipv6?, hfront]
  refine (if_neg hlength).trans ?_
  rw [hguard, Option.bind_eq_bind, Option.bind_some, after?_self, Option.bind_eq_bind,
    Option.bind_some, after?_self, Option.bind_eq_bind, Option.bind_some, hback]
  dsimp only
  cases ofGroups? (front ++ List.replicate (8 - front.length - back.length) 0 ++ back) <;> rfl

/-- An address of version 6 is read back, up to its end. -/
theorem ipv6?_render (ip : IPv6) (rest : List Char) (h : ∀ c ∈ rest.head?, c = ']' ∨ c = '%') :
    ipv6? (ip.render.toList ++ rest) = some (ip, rest) := by
  have hlength : ip.groups.toList.length = 8 := Vector.length_toList
  have hend : Stops rest := .inl h
  have hcolons : ∀ cs, Stops (':' :: ':' :: cs) := fun cs => .inr ⟨cs, rfl⟩
  rw [IPv6.render]
  split
  next four hfour =>
    have htext : ("::ffff:" ++ four.render).toList ++ rest =
        ':' :: ':' :: (groupText 0xFFFF ++ ':' :: (four.render.toList ++ rest)) := by
      rw [String.toList_append]
      rfl
    have htail := takeGroups_group true 6 0xFFFF (endsGroup_colon (four.render.toList ++ rest))
    rw [takeGroups_render 4 four hend.endsGroup.ends] at htail
    have hread := ipv6?_of_colons (takeGroups_of_stops true 8 (hcolons _)) nofun htail
    have hgroups := IPv6.ofGroups?_toList ip
    rw [IPv6.groups_of_mapped? hfour] at hgroups
    rw [htext]
    exact hread.trans (congrArg (Option.map fun ip => (ip, rest)) hgroups)
  next =>
    dsimp only
    split
    next hrun =>
      generalize hlongest : IPv6.longestRun ⟨0, 0⟩ ⟨0, 0⟩ 0 ip.groups.toList = r at hrun
      obtain ⟨front, back, hsplit, hfront, hback⟩ := IPv6.groups_split hlongest
      have hcount : front.length + (r.length + back.length) = 8 := by
        rw [← hlength, hsplit, List.length_append, List.length_append, List.length_replicate]
      have hhead := takeGroups_renderGroups (show front.length ≤ 8 by omega)
        (hcolons ((IPv6.renderGroups back).toList ++ rest))
      have htail := takeGroups_renderGroups (show back.length ≤ 7 - front.length by omega) hend
      have hzeros : 8 - front.length - back.length = r.length := by omega
      have hread := ipv6?_of_colons hhead (by omega) htail
      rw [hzeros, List.append_assoc, ← hsplit, IPv6.ofGroups?_toList] at hread
      rw [← hfront, ← hback, String.toList_append, String.toList_append, List.append_assoc,
        List.append_assoc]
      exact hread
    next =>
      rw [ipv6?_of_full (takeGroups_renderGroups (Nat.le_of_eq hlength) hend) hlength,
        IPv6.ofGroups?_toList]
      rfl

/-! ## Addresses and ports -/

theorem number?_plain {bound n : Nat} {rest : List Char} (hn : n < bound) (h : Ends rest) :
    number? .plain bound ((Nat.repr n).toList ++ rest) = some (n, rest) := by
  rw [Nat.toList_repr]
  exact number?_toDigits .plain (by decide) (by decide) nofun hn h

theorem port?_repr (port : UInt16) {rest : List Char} (h : Ends rest) :
    port? (':' :: ((Nat.repr port.toNat).toList ++ rest)) = some (port, rest) := by
  rw [port?, after?_self]
  simp only [Option.bind_eq_bind, Option.bind_some, number?_plain port.toNat_lt h, Option.pure_def,
    Nat.toUInt16_eq, UInt16.ofNat_toNat]

/-- The scope of an address of version 6 is read back, and none is found where none is written. -/
theorem scope_render (n : UInt32) (cs : List Char) :
    scope ((if n = 0 then "" else "%" ++ Nat.repr n.toNat).toList ++ ']' :: cs) = (n, ']' :: cs) := by
  split
  next hzero =>
    rw [hzero]
    rfl
  next =>
    have hnumber := number?_plain n.toNat_lt (ends_cons (c := ']') rfl cs)
    have htext : ("%" ++ Nat.repr n.toNat).toList ++ ']' :: cs =
        '%' :: ((Nat.repr n.toNat).toList ++ ']' :: cs) := by
      rw [String.toList_append]
      rfl
    rw [htext, scope, after?_self, Option.bind_eq_bind, Option.bind_some, hnumber]
    simp

theorem whole?_eq_some {α : Type} {read : List Char → Option (α × List Char)} {text : String} {a : α}
    (h : read text.toList = some (a, [])) : whole? read text = some a := by
  rw [whole?, h]
  rfl

theorem ipv4?_renderGroups (gs : List UInt16) {rest : List Char} (h : EndsGroup rest) :
    ipv4? ((IPv6.renderGroups gs).toList ++ rest) = none := by
  cases gs with
  | nil => exact ipv4?_of_ends h.ends h.noDot
  | cons g gs =>
    rw [toList_renderGroups_cons, List.append_assoc]
    exact ipv4?_groupText g (endsGroup_colonTexts gs h)

/-- No address of version 6 begins like one of version 4. -/
theorem ipv4?_render_six (ip : IPv6) : ipv4? ip.render.toList = none := by
  rw [IPv6.render]
  split
  next four _ =>
    rw [String.toList_append]
    exact ipv4?_of_ends (ends_cons rfl _) nofun
  next =>
    dsimp only
    split
    next =>
      rw [String.toList_append, String.toList_append, List.append_assoc]
      exact ipv4?_renderGroups _ (endsGroup_colon _)
    next =>
      have hend := ipv4?_renderGroups ip.groups.toList ⟨ends_nil, nofun⟩
      rw [List.append_nil] at hend
      exact hend

end Net

/-- The text of an address is read back as the address. -/
theorem IPAddress.ofText?_render (ip : IPAddress) : IPAddress.ofText? ip.render = some ip := by
  refine Net.whole?_eq_some ?_
  cases ip with
  | v4 ip =>
    have hread := Net.ipv4?_render ip Net.ends_nil
    rw [List.append_nil] at hread
    rw [Net.ipAddress?, render, hread]
  | v6 ip =>
    have hread := Net.ipv6?_render ip [] nofun
    rw [List.append_nil] at hread
    rw [Net.ipAddress?, render, Net.ipv4?_render_six, hread]
    rfl

/-- The text of an address with a port is read back as the address with the port. -/
theorem SocketAddress.ofText?_render (a : SocketAddress) : SocketAddress.ofText? a.render = some a := by
  refine Net.whole?_eq_some ?_
  cases a with
  | v4 ip port =>
    have hport := Net.port?_repr port Net.ends_nil
    rw [List.append_nil] at hport
    have htext : (render (.v4 ip port)).toList =
        ip.render.toList ++ ':' :: (Nat.repr port.toNat).toList := by
      rw [render, String.toList_append, String.toList_append, List.append_assoc]
      rfl
    rw [htext, Net.socketAddress?, Net.socketAddress?.ipv4WithPort?,
      Net.ipv4?_render ip (Net.ends_cons rfl _)]
    simp only [Option.bind_eq_bind, Option.bind_some, hport, Option.pure_def]
  | v6 ip n port =>
    have hport := Net.port?_repr port Net.ends_nil
    rw [List.append_nil] at hport
    have htext : (render (.v6 ip n port)).toList = '[' :: (ip.render.toList ++
        ((if n = 0 then "" else "%" ++ Nat.repr n.toNat).toList ++
          ']' :: ':' :: (Nat.repr port.toNat).toList)) := by
      rw [render]
      simp only [String.toList_append, List.append_assoc]
      rfl
    have hbracket : ∀ cs, Net.ipv4? ('[' :: cs) = none := fun cs =>
      Net.ipv4?_of_ends (Net.ends_cons rfl cs) nofun
    have hfour : Net.socketAddress?.ipv4WithPort? (render (.v6 ip n port)).toList = none := by
      rw [htext, Net.socketAddress?.ipv4WithPort?, hbracket]
      rfl
    have hscope := Net.scope_render n (':' :: (Nat.repr port.toNat).toList)
    have hends : ∀ c ∈ ((if n = 0 then "" else "%" ++ Nat.repr n.toNat).toList ++
        ']' :: ':' :: (Nat.repr port.toNat).toList).head?, c = ']' ∨ c = '%' := by
      intro c hc
      split at hc
      · exact .inl (Option.some.inj hc).symm
      · rw [String.toList_append] at hc
        exact .inr (Option.some.inj hc).symm
    have hsix := Net.ipv6?_render ip _ hends
    rw [Net.socketAddress?, hfour, htext, Net.socketAddress?.ipv6WithPort?]
    simp only [Net.after?_self, hsix, hscope, hport, Option.bind_eq_bind, Option.bind_some, Option.pure_def]

end PeerCluster
