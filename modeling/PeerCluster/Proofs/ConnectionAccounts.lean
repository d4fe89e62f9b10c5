import Mathlib.Logic.Relation
import PeerCluster.Proofs.AcknowledgedDelivery
import PeerCluster.Proofs.DeliveryTranscripts

/-!
# What a courier knows of its connection

A courier counts the messages on the connection that it holds and remembers when the connection was
last used, so that it can give the connection up in time.

**The account** (`account`). From everything that was asked and answered one can read off which
connection is held, how many messages have been written on it to the end, and when it was opened or last
written on. Nothing that the courier makes of it goes into the account.

**Theorem** (`Courier.accounts_exact`). Whatever a courier is asked to do, and whatever the world
answers, its own figures are those of the account (`Accounted`). So it gives a connection up exactly
when the connection has reached a limit, and a connection that it keeps is within both.

The figures are set at three places: when a connection has been opened, when a message has been written
and when the connection is let go. Between these, every plan can end early. There is one lemma for each
plan, and `Accounted` holds wherever the plan may end.
-/

namespace PeerCluster

/-! ## The account -/

namespace Exchange

/-- What can be read off a transcript about the connection that is held. -/
structure Account where
  /-- The latest connection that was opened, unless it has been closed. -/
  link : Option Link := none
  /-- How many messages have been written on it to the end. -/
  messages : Nat := 0
  /-- When it was opened or the latest of these messages was written. The clock is read afterwards, so
  for a moment this is not known. -/
  usedAt : Option Nat := none

/-- The account after one more question was answered. -/
def Account.note (a : Account) : Said → Account
  | ⟨.dial .., .connected link⟩ => { link := some link }
  | ⟨.write link f _, .ok ()⟩ =>
    if a.link = some link ∧ f.kind = .message then
      { a with messages := a.messages + 1, usedAt := none }
    else a
  | ⟨.close link, _⟩ => if a.link = some link then {} else a
  | ⟨.clock, now⟩ =>
    if a.link.isSome ∧ a.usedAt.isNone then { a with usedAt := some now } else a
  | _ => a

/-- The account of a whole transcript. -/
def account (ts : Transcript) : Account :=
  ts.foldl Account.note {}

theorem account_concat (ts : Transcript) (x : Said) :
    account (ts ++ [x]) = (account ts).note x :=
  List.foldl_append ..

variable {a : Account} {link : Link} {f : Frame} {ms : Nat}

theorem Account.note_greeting (hkind : f.kind ≠ .message) (answer : Except IoFault Unit) :
    a.note ⟨.write link f ms, answer⟩ = a := by
  cases answer with
  | error fault => rfl
  | ok u => exact if_neg fun hmessage => hkind hmessage.2

theorem Account.note_close (hlink : a.link = some link) (answer : Unit) :
    a.note ⟨.close link, answer⟩ = {} :=
  if_pos hlink

theorem Account.note_clock (hlink : a.link = some link) (hused : a.usedAt = none) (now : Nat) :
    a.note ⟨.clock, now⟩ = { a with usedAt := some now } :=
  if_pos ⟨by rw [hlink]; rfl, by rw [hused]; rfl⟩

theorem Account.note_message (hlink : a.link = some link) (hkind : f.kind = .message) (now : Nat) :
    (a.note ⟨.write link f ms, .ok ()⟩).note ⟨.clock, now⟩ =
      { a with messages := a.messages + 1, usedAt := some now } := by
  have hwritten : a.note ⟨.write link f ms, .ok ()⟩ =
      { a with messages := a.messages + 1, usedAt := none } := if_pos ⟨hlink, hkind⟩
  rw [hwritten]
  exact note_clock (by exact hlink) rfl now

/-- The connection has carried as many messages as the settings allow. -/
def Account.IsWornOut (a : Account) (settings : Settings.Delivery) : Prop :=
  0 < settings.keepaliveMaxRequests.toNat ∧ settings.keepaliveMaxRequests.toNat ≤ a.messages

/-- The connection has not been used for as long as the settings allow. -/
def Account.IsIdle (a : Account) (settings : Settings.Delivery) (now : Nat) : Prop :=
  ∃ limit used, settings.keepaliveIdleMs = some limit ∧ a.usedAt = some used ∧
    limit.toNat ≤ now - used

end Exchange

/-! ## What one plan does to the figures -/

namespace Courier

open Exchange

variable {payload : ByteArray} {wait : Bool} {ts ts' : Transcript} {c c' : Courier}

/-- The figures of a courier agree with an account. -/
structure Accounted (c : Courier) (a : Account) : Prop where
  link : c.link = a.link
  requests : c.requests = .ofNat a.messages
  /-- The clock has been read since the connection was last used. -/
  used : ∀ link, a.link = some link → ∃ used, a.usedAt = some used ∧ c.lastUsed = some used
  unheld : a.link = none → a = {}

theorem accounted_of_unheld {a : Account} (hlink : c.link = none) (hrequests : c.requests = 0)
    (ha : a = {}) : c.Accounted a := by
  subst ha
  exact ⟨hlink, hrequests, nofun, fun _ => rfl⟩

theorem Accounted.eq_empty {a : Account} (h : c.Accounted a) (hlink : c.link = none) : a = {} :=
  h.unheld (h.link ▸ hlink)

theorem Accounted.requests_eq_zero {a : Account} (h : c.Accounted a) (hlink : c.link = none) :
    c.requests = 0 := by
  rw [h.requests, h.eq_empty hlink]
  rfl

/-- Between being opened and being greeted a connection is in the account but not yet held. -/
theorem account_dial (hts : account ts = {}) {result : Except DeliveryError Link}
    (hrun : c.dial.Runs Written ts result ts') : account ts' = { link := result.toOption } := by
  rw [dial, runs_written_iff] at hrun
  obtain ⟨dialled, hrun⟩ := hrun
  cases dialled with
  | timedOut | failed =>
    obtain ⟨rfl, rfl⟩ := runs_pure_iff.1 hrun
    rw [account_concat, hts]
    rfl
  | connected link =>
    have hopened (address settings) : account (ts ++ [⟨.dial address settings, .connected link⟩]) =
        { link := some link } := by
      rw [account_concat]
      rfl
    cases hsize : Frame.checkSize (Frame.ofHandshake c.self).wireSize with
    | error e =>
      simp only [hsize] at hrun
      obtain ⟨_, hrun⟩ := runs_written_iff.1 hrun
      obtain ⟨rfl, rfl⟩ := runs_pure_iff.1 hrun
      rw [account_concat, hopened, Account.note_close rfl]
      rfl
    | ok u =>
      simp only [hsize] at hrun
      obtain ⟨written, hrun⟩ := runs_written_iff.1 hrun
      have hgreeted (ms) : account (ts ++
          [⟨.dial c.destination.address c.settings, .connected link⟩] ++
          [⟨.write link (.ofHandshake c.self) ms, written⟩]) = { link := some link } := by
        rw [account_concat, hopened, Account.note_greeting (by simp [Frame.ofHandshake])]
      cases written with
      | ok u =>
        obtain ⟨rfl, rfl⟩ := runs_pure_iff.1 hrun
        rw [hgreeted]
        rfl
      | error fault =>
        obtain ⟨_, hrun⟩ := runs_written_iff.1 hrun
        obtain ⟨rfl, rfl⟩ := runs_pure_iff.1 hrun
        rw [account_concat, hgreeted, Account.note_close rfl]
        rfl

theorem accounted_connect (h : c.Accounted (account ts)) {result : Except DeliveryError Link}
    (hrun : c.connect.Runs Written ts (result, c') ts') :
    c'.Accounted (account ts') ∧ c'.link = result.toOption := by
  rw [connect] at hrun
  split at hrun
  · rename_i link hlink
    obtain ⟨rfl, rfl, rfl⟩ := runs_pure_pair_iff.1 hrun
    exact ⟨h, hlink⟩
  · rename_i hlink
    obtain ⟨dialled, ts₁, hdial, hrun⟩ := runs_bind_iff.1 hrun
    have hdialled := account_dial (h.eq_empty hlink) hdial
    cases dialled with
    | ok link =>
      obtain ⟨now, hrun⟩ := runs_written_iff.1 hrun
      obtain ⟨rfl, rfl, rfl⟩ := runs_pure_pair_iff.1 hrun
      rw [account_concat, hdialled, Account.note_clock rfl rfl]
      refine ⟨⟨rfl, rfl, fun _ _ => ⟨now, rfl, rfl⟩, fun hnone => ?_⟩, rfl⟩
      cases hnone
    | error e =>
      obtain ⟨_, hrun⟩ := runs_written_iff.1 hrun
      obtain ⟨rfl, rfl, rfl⟩ := runs_pure_pair_iff.1 hrun
      refine ⟨accounted_of_unheld hlink (h.requests_eq_zero hlink) ?_, hlink⟩
      rw [account_concat, hdialled]
      rfl

theorem accounted_disconnect (h : c.Accounted (account ts))
    (hrun : c.disconnect.Runs Written ts c' ts') : c'.Accounted (account ts') := by
  rw [disconnect] at hrun
  split at hrun
  · rename_i link hlink
    obtain ⟨_, hrun⟩ := runs_written_iff.1 hrun
    obtain ⟨rfl, rfl⟩ := runs_pure_iff.1 hrun
    refine accounted_of_unheld rfl rfl ?_
    rw [account_concat, Account.note_close (h.link ▸ hlink)]
  · rename_i hlink
    obtain ⟨rfl, rfl⟩ := runs_pure_iff.1 hrun
    exact accounted_of_unheld rfl rfl (h.eq_empty hlink)

theorem accounted_attempt (h : c.Accounted (account ts)) {result : Except DeliveryError Unit}
    (hrun : (c.attempt payload wait).Runs Written ts (result, c') ts') :
    c'.Accounted (account ts') := by
  rw [attempt] at hrun
  obtain ⟨⟨connected, c₁⟩, ts₁, hconnect, hrun⟩ := runs_bind_iff.1 hrun
  obtain ⟨h₁, hheld⟩ := accounted_connect h hconnect
  cases connected with
  | error e =>
    obtain ⟨-, rfl, rfl⟩ := runs_pure_pair_iff.1 hrun
    exact h₁
  | ok link =>
    have hlink : (account ts₁).link = some link := h₁.link ▸ hheld
    obtain ⟨written, hrun⟩ := runs_written_iff.1 hrun
    cases written with
    | error fault =>
      -- The number of the next message is in no account.
      obtain ⟨-, rfl, rfl⟩ := runs_pure_pair_iff.1 hrun
      rw [account_concat]
      exact ⟨h₁.link, h₁.requests, h₁.used, h₁.unheld⟩
    | ok u =>
      obtain ⟨now, hrun⟩ := runs_written_iff.1 hrun
      -- From here on nothing is asked that the account would note.
      have hcounted : Accounted
          { c₁ with nextId := c₁.nextId + 1, requests := c₁.requests + 1, lastUsed := some now }
          (account (ts₁ ++ [⟨.write link (.message c₁.nextId payload wait)
            c₁.settings.readTimeoutMs.toNat, .ok ()⟩] ++ [⟨.clock, now⟩])) := by
        rw [account_concat, account_concat, Account.note_message hlink rfl]
        refine ⟨h₁.link, ?_, fun _ _ => ⟨now, rfl, rfl⟩, fun hnone => ?_⟩
        · rw [h₁.requests]
          exact (UInt64.ofNat_add ..).symm
        · rw [hlink] at hnone
          cases hnone
      cases wait with
      | false =>
        obtain ⟨_, hrun⟩ := runs_written_iff.1 hrun
        obtain ⟨-, rfl, rfl⟩ := runs_pure_pair_iff.1 hrun
        rw [account_concat]
        exact hcounted
      | true =>
        obtain ⟨heard, hrun⟩ := runs_written_iff.1 hrun
        split at hrun
        · obtain ⟨_, hrun⟩ := runs_written_iff.1 hrun
          obtain ⟨-, rfl, rfl⟩ := runs_pure_pair_iff.1 hrun
          rw [account_concat, account_concat]
          exact hcounted
        all_goals
          obtain ⟨-, rfl, rfl⟩ := runs_pure_pair_iff.1 hrun
          rw [account_concat]
          exact hcounted

theorem accounted_attemptUpTo {attempts left : Nat} {causes : Causes}
    (h : c.Accounted (account ts)) {result : Except DeliveryError Unit}
    (hrun : (c.attemptUpTo payload wait attempts left causes).Runs Written ts (result, c') ts') :
    c'.Accounted (account ts') := by
  induction left generalizing causes c ts with
  | zero =>
    rw [attemptUpTo] at hrun
    obtain ⟨c₁, ts₁, hdisconnect, hrun⟩ := runs_bind_iff.1 hrun
    obtain ⟨-, rfl, rfl⟩ := runs_pure_pair_iff.1 hrun
    exact accounted_disconnect h hdisconnect
  | succ left ih =>
    rw [Delivery.attemptUpTo_succ] at hrun
    obtain ⟨c₁, ts₁, hprepare, hrun⟩ := runs_bind_iff.1 hrun
    have h₁ : c₁.Accounted (account ts₁) := by
      cases causes with
      | none =>
        obtain ⟨rfl, rfl⟩ := runs_pure_iff.1 hprepare
        exact h
      | one | several => exact accounted_disconnect h hprepare
    obtain ⟨⟨outcome, c₂⟩, ts₂, hattempt, hrun⟩ := runs_bind_iff.1 hrun
    have h₂ := accounted_attempt h₁ hattempt
    cases outcome with
    | ok u =>
      obtain ⟨-, rfl, rfl⟩ := runs_pure_pair_iff.1 hrun
      exact h₂
    | error e =>
      dsimp only at hrun
      split at hrun
      · obtain ⟨_, hrun⟩ := runs_written_iff.1 hrun
        refine ih ?_ hrun
        rw [account_concat]
        exact h₂
      · obtain ⟨-, rfl, rfl⟩ := runs_pure_pair_iff.1 hrun
        exact h₂

theorem accounted_send (h : c.Accounted (account ts)) {result : Except DeliveryError Unit}
    (hrun : (c.send payload wait).Runs Written ts (result, c') ts') :
    c'.Accounted (account ts') := by
  rw [send] at hrun
  split at hrun
  · obtain ⟨-, rfl, rfl⟩ := runs_pure_pair_iff.1 hrun
    exact h
  · exact accounted_attemptUpTo h hrun

/-! ## Whatever a courier is asked to do -/

/-- A connection that is given up is closed. -/
def closing : Option Link → Transcript
  | some link => [⟨.close link, ()⟩]
  | none => []

/-- One thing after the other that a courier is asked to do. Everything that is said is written down,
and the world answers as it likes. -/
inductive Serves : Transcript × Courier → Transcript × Courier → Prop
  | connects {ts ts' : Transcript} {c c' : Courier} {result : Except DeliveryError Link} :
    c.connect.Runs Written ts (result, c') ts' → Serves (ts, c) (ts', c')
  | sends {ts ts' : Transcript} {c c' : Courier} {payload : ByteArray} {wait : Bool}
    {result : Except DeliveryError Unit} :
    (c.send payload wait).Runs Written ts (result, c') ts' → Serves (ts, c) (ts', c')
  | disconnects {ts ts' : Transcript} {c c' : Courier} :
    c.disconnect.Runs Written ts c' ts' → Serves (ts, c) (ts', c')
  | recycles (ts : Transcript) (c : Courier) (now : Nat) :
    Serves (ts, c) (ts ++ closing (c.recycle now).1, (c.recycle now).2)

theorem recycle_eq (c : Courier) (now : Nat) :
    (∃ link, c.link = some link ∧ c.recycle now = (some link, c.dropped)) ∨
      c.recycle now = (none, c) := by
  rw [recycle]
  cases c.link with
  | none => exact .inr rfl
  | some link =>
    dsimp only
    split
    · exact .inl ⟨link, rfl, rfl⟩
    · exact .inr rfl

theorem Serves.accounted {s s' : Transcript × Courier} (h : Serves s s')
    (haccounted : s.2.Accounted (account s.1)) : s'.2.Accounted (account s'.1) := by
  cases h with
  | connects hrun => exact (accounted_connect haccounted hrun).1
  | sends hrun => exact accounted_send haccounted hrun
  | disconnects hrun => exact accounted_disconnect haccounted hrun
  | recycles ts c now =>
    obtain ⟨link, hlink, hgiven⟩ | hkept := c.recycle_eq now
    · rw [hgiven]
      refine accounted_of_unheld rfl rfl ?_
      rw [closing, account_concat, Account.note_close (haccounted.link ▸ hlink)]
    · rw [hkept, closing, List.append_nil]
      exact haccounted

theorem Serves.settings {s s' : Transcript × Courier} (h : Serves s s') :
    s'.2.settings = s.2.settings := by
  cases h with
  | connects hrun => exact (alike_connect hrun).settings
  | sends hrun => exact (alike_send hrun).settings
  | disconnects hrun => exact (alike_disconnect hrun).settings
  | recycles ts c now =>
    obtain ⟨link, -, hgiven⟩ | hkept := c.recycle_eq now
    · rw [hgiven]
      rfl
    · rw [hkept]

theorem accounted_later {s s' : Transcript × Courier} (h : Relation.ReflTransGen Serves s s')
    (haccounted : s.2.Accounted (account s.1)) :
    s'.2.Accounted (account s'.1) ∧ s'.2.settings = s.2.settings := by
  induction h with
  | refl => exact ⟨haccounted, rfl⟩
  | tail _ hserves ih => exact ⟨hserves.accounted ih.1, hserves.settings.trans ih.2⟩

/-! ## The limits -/

section Limits

variable {a : Account} {link : Link}

theorem Accounted.toNat_requests (h : c.Accounted a) (hfew : a.messages < UInt64.size) :
    c.requests.toNat = a.messages := by
  rw [h.requests]
  exact UInt64.toNat_ofNat_of_lt' hfew

theorem Accounted.isWornOut_iff (h : c.Accounted a) (hfew : a.messages < UInt64.size) :
    c.isWornOut = true ↔ a.IsWornOut c.settings := by
  rw [isWornOut, Account.IsWornOut, Bool.and_eq_true, decide_eq_true_iff, decide_eq_true_iff,
    UInt64.lt_iff_toNat_lt, UInt64.le_iff_toNat_le, h.toNat_requests hfew]
  rfl

theorem Accounted.isIdle_iff (h : c.Accounted a) (hlink : c.link = some link) {now : Nat} :
    c.isIdle now = true ↔ a.IsIdle c.settings now := by
  obtain ⟨used, hused, hlast⟩ := h.used link (h.link ▸ hlink)
  rw [isIdle, Account.IsIdle, hlast, hused]
  cases c.settings.keepaliveIdleMs with
  | none => simp
  | some limit => simp

theorem Accounted.recycle_of_reached (h : c.Accounted a) (hlink : c.link = some link)
    (hfew : a.messages < UInt64.size) {now : Nat}
    (hreached : a.IsWornOut c.settings ∨ a.IsIdle c.settings now) :
    c.recycle now = (some link, c.dropped) := by
  rw [← h.isWornOut_iff hfew, ← h.isIdle_iff hlink, ← Bool.or_eq_true] at hreached
  rw [recycle, hlink]
  exact if_pos hreached

theorem Accounted.recycle_of_not_reached (h : c.Accounted a) (hlink : c.link = some link)
    (hfew : a.messages < UInt64.size) {now : Nat}
    (hwithin : ¬ (a.IsWornOut c.settings ∨ a.IsIdle c.settings now)) :
    c.recycle now = (none, c) := by
  rw [← h.isWornOut_iff hfew, ← h.isIdle_iff hlink, ← Bool.or_eq_true] at hwithin
  rw [recycle, hlink]
  exact if_neg hwithin

end Limits

/-- **Theorem.** Whatever a new courier has been asked to do, and whatever the world has answered, it
holds the connection that was opened last, unless that was closed, and its count is the number of
messages written on it to the end, or zero if none is held. It gives the connection up, which is then
closed, exactly when as many messages have been written on it as the settings allow, or when it has not
been used for as long as they allow; otherwise nothing changes. So a connection that it keeps is within
both limits. -/
theorem accounts_exact {settings : Settings.Delivery} {self : Handshake} {destination : Member}
    {cell : HealthCell}
    (h : Relation.ReflTransGen Serves ([], { settings, self, destination, cell }) (ts, c)) :
    c.link = (account ts).link ∧
    c.requests = .ofNat (account ts).messages ∧
    (c.link = none → c.requests = 0) ∧
    ((account ts).messages < UInt64.size →
      c.requests.toNat = (account ts).messages ∧
      ∀ now,
        (∀ link, c.link = some link →
          (account ts).IsWornOut settings ∨ (account ts).IsIdle settings now →
          c.recycle now = (some link, { c with link := none, requests := 0 })) ∧
        (c.link = none ∨ ¬ ((account ts).IsWornOut settings ∨ (account ts).IsIdle settings now) →
          c.recycle now = (none, c)) ∧
        ∀ link, (c.recycle now).2.link = some link →
          (0 < settings.keepaliveMaxRequests.toNat →
            (account ts).messages < settings.keepaliveMaxRequests.toNat) ∧
          ∀ limit, settings.keepaliveIdleMs = some limit →
            ∃ used, (account ts).usedAt = some used ∧ now - used < limit.toNat) := by
  obtain ⟨haccounted, hsettings⟩ := accounted_later h (accounted_of_unheld rfl rfl rfl)
  obtain rfl : c.settings = settings := hsettings
  refine ⟨haccounted.link, haccounted.requests, haccounted.requests_eq_zero, fun hfew =>
    ⟨haccounted.toNat_requests hfew, fun now => ⟨fun link hlink hlimit => ?_, fun hkeeps => ?_,
      fun link hkept => ?_⟩⟩⟩
  · exact haccounted.recycle_of_reached hlink hfew hlimit
  · cases hlink : c.link with
    | none => rw [recycle, hlink]
    | some link =>
      exact haccounted.recycle_of_not_reached hlink hfew (hkeeps.resolve_left (by simp [hlink]))
  · -- A connection that is still held has not been given up.
    obtain ⟨_, -, hgiven⟩ | hsame := c.recycle_eq now
    · rw [hgiven] at hkept
      cases hkept
    · rw [hsame] at hkept
      have hwithin : ¬ ((account ts).IsWornOut c.settings ∨ (account ts).IsIdle c.settings now) := by
        intro hreached
        rw [haccounted.recycle_of_reached hkept hfew hreached] at hsame
        cases hsame
      obtain ⟨used, hused, -⟩ := haccounted.used link (haccounted.link ▸ hkept)
      refine ⟨fun hmost => Nat.lt_of_not_le fun hle => hwithin (.inl ⟨hmost, hle⟩),
        fun limit hlimit => ⟨used, hused, Nat.lt_of_not_le fun hle => hwithin (.inr ?_)⟩⟩
      exact ⟨limit, used, hlimit, hused, hle⟩

/-- The first message on a connection that may carry only one. -/
theorem accounts_exact_of_only_message :
    let c : Courier := { Delivery.novice with
      settings := { keepaliveMaxRequests := 1, keepaliveIdleMs := some 500 } }
    ∃ ts c', Relation.ReflTransGen Serves ([], c) (ts, c') ∧
      (account ts).messages = 1 ∧ c'.link = some ⟨0⟩ ∧ c'.requests = 1 ∧
      c'.recycle 8 = (some ⟨0⟩, { c' with link := none, requests := 0 }) := by
  intro c
  have hgreeting : Frame.checkSize (Frame.ofHandshake c.self).wireSize = .ok () :=
    Frame.checkSize_eq_ok_iff.2 Delivery.fits_greeting_novice
  have hdial : c.dial.Runs Written [] (.ok ⟨0⟩)
      [⟨.dial c.destination.address c.settings, .connected ⟨0⟩⟩,
        ⟨.write ⟨0⟩ (.ofHandshake c.self) c.settings.readTimeoutMs.toNat, .ok ()⟩] := by
    rw [dial, runs_written_iff]
    refine ⟨.connected ⟨0⟩, ?_⟩
    simp only [hgreeting]
    exact runs_written_iff.2 ⟨.ok (), .done _ _⟩
  have hconnect : c.connect.Runs Written []
      (.ok ⟨0⟩, { c with link := some ⟨0⟩, lastUsed := some 5 })
      [⟨.dial c.destination.address c.settings, .connected ⟨0⟩⟩,
        ⟨.write ⟨0⟩ (.ofHandshake c.self) c.settings.readTimeoutMs.toNat, .ok ()⟩, ⟨.clock, 5⟩] :=
    runs_bind_iff.2 ⟨_, _, hdial, runs_written_iff.2 ⟨5, .done _ _⟩⟩
  obtain ⟨c', ts, hattempt, hlink, hone⟩ : ∃ c' ts,
      (c.attempt "hello".toUTF8 false).Runs Written [] (.ok (), c') ts ∧
      c'.link = some ⟨0⟩ ∧ (account ts).messages = 1 := by
    -- What the world answers: the message is written, it is 7, and the health is marked.
    exact ⟨_, _, runs_bind_iff.2 ⟨_, _, hconnect, runs_written_iff.2 ⟨.ok (),
      runs_written_iff.2 ⟨7, runs_written_iff.2 ⟨(), .done _ _⟩⟩⟩⟩, rfl, rfl⟩
  have hrun := Delivery.send_of_attempt (by decide +kernel) hattempt (by simp [Delivery.IsFinal])
  have hserved := Relation.ReflTransGen.single (Serves.sends hrun)
  obtain ⟨-, hcount, -, hlimits⟩ := accounts_exact hserved
  obtain ⟨-, hlater⟩ := hlimits (by rw [hone]; decide)
  refine ⟨ts, c', hserved, hone, hlink, by rw [hcount, hone]; rfl, ?_⟩
  exact (hlater 8).1 ⟨0⟩ hlink (.inl ⟨by decide, by rw [hone]; decide⟩)

end Courier

end PeerCluster
