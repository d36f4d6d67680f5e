/-
**The mailbox of the VideoCore.**

The kernel and the graphics processor exchange words of 32 bits.  A word is a channel number in its
low four bits and the address of an aligned buffer in the others.  `write_mailbox` waits until there
is room and writes such a word; `read_mailbox` waits until there is one and reads it.  It is told the
channel, but reads the next word of whatever channel as it is.

Main definitions:

* `Aim.MailDevice`, `Aim.MailDevice.poll` — the hardware: it goes on between two looks at it;
* `Aim.writeMailbox`, `Aim.readMailbox` — `mailbox.c`;
* `Aim.channelOf`, `Aim.dataOf` — the two parts of a word;
* `Aim.MailDevice.words` — the words to be read, in their order;
* `Aim.ReadsFirst` — the law of reading.

Main results:

* `Aim.writeMailbox_spec`, `Aim.readMailbox_spec` — what the two functions do;
* `Aim.reads_first_iff` — **the law holds for channel 0 when its word is the next one, and never
  else.**
-/

import AimKernel.Bits
import AimKernel.CArith

set_option relaxedAutoImplicit false
set_option autoImplicit false

namespace Aim

/-! ### The hardware -/

/-- `MAIL_FULL`. -/
def mailFull : BitVec 32 := 0x80000000

/-- `MAIL_EMPTY`. -/
def mailEmpty : BitVec 32 := 0x40000000

/-- What happens before a look at the status: words arrive, and there is room or not. -/
structure MailEvent where
  arrived : List (BitVec 32)
  full : Bool

/-- The words that can be read, those that were written, and what is going to happen. -/
structure MailDevice where
  fifo : List (BitVec 32)
  full : Bool
  sent : List (BitVec 32)
  events : List MailEvent

/-- What must not happen. -/
inductive MailFault
  /-- An assertion. -/
  | assertion
  /-- A wait for something that never happens. -/
  | waits
  /-- Reading when there is nothing to be read. -/
  | nothing

namespace MailDevice

/-- `MAIL0_STATUS`. -/
def status (m : MailDevice) : BitVec 32 :=
  (if m.full then mailFull else 0) ||| (if m.fifo = [] then mailEmpty else 0)

/-- The hardware at the next look. -/
def poll (m : MailDevice) : MailDevice :=
  match m.events with
  | [] => m
  | e :: es => { m with fifo := m.fifo ++ e.arrived, full := e.full, events := es }

/-- The words to be read, in their order. -/
def words (m : MailDevice) : List (BitVec 32) :=
  m.fifo ++ m.events.flatMap MailEvent.arrived

end MailDevice

/-! ### `mailbox.c` -/

/-- `do ... while (s & mask)`, with so many looks at the status; behind the last event nothing
changes any more. -/
def waitWhile (mask : BitVec 32) : ℕ → MailDevice → Except MailFault MailDevice
  | 0, _ => .error .waits
  | n + 1, m => if m.poll.status &&& mask ≠ 0 then waitWhile mask n m.poll else .ok m.poll

/-- `get_read_fp(bus, w)` and `get_write_fp(bus, w)` of `io-mem.c` are not `NULL`. -/
def ioMemHasFp (w : ℕ) : Bool := w = 8 ∨ w = 16 ∨ w = 32

/-- `write_mailbox(channel, data)`: what it returns, and the hardware. -/
def writeMailbox (m : MailDevice) (channel data : BitVec 32) :
    Except MailFault (ℤ × MailDevice) :=
  if data &&& 0xF ≠ 0 then .error .assertion
  else if channel &&& 0xF ≠ channel then .error .assertion
  else if ¬ ioMemHasFp 32 then .ok (-1, m)
  else do
    let m ← waitWhile mailFull (m.events.length + 1) m
    return (0, { m with sent := m.sent ++ [channel ||| data] })

/-- What `read_mailbox` returns, what it stores in `*data`, and the hardware. -/
structure MailRead where
  ret : ℤ
  data : Option (BitVec 32)
  device : MailDevice

/-- `read_mailbox(channel, data)`. -/
def readMailbox (m : MailDevice) (channel : BitVec 32) : Except MailFault MailRead :=
  if channel &&& 0xF ≠ channel then .error .assertion
  else if ¬ ioMemHasFp 32 then .ok ⟨-1, none, m⟩
  else do
    let m ← waitWhile mailEmpty (m.events.length + 1) m
    match m.fifo with
    | [] => .error .nothing
    | d :: fifo => return ⟨0, some d, { m with fifo := fifo }⟩

/-! ### Words -/

/-- The channel of a word. -/
def channelOf (word : BitVec 32) : BitVec 32 := word &&& 0xF

/-- Its data. -/
def dataOf (word : BitVec 32) : BitVec 32 := word &&& ~~~0xF

/-- What `write_mailbox` composes is taken apart again. -/
theorem parts_or {channel data : BitVec 32} (hchannel : channel &&& 0xF = channel)
    (hdata : data &&& 0xF = 0) :
    channelOf (channel ||| data) = channel ∧ dataOf (channel ||| data) = data :=
  ⟨Bits.and_mask_or hchannel hdata, Bits.and_not_mask_or hchannel hdata⟩

/-- A word is its own data on channel 0. -/
theorem dataOf_eq_self_iff {word : BitVec 32} : dataOf word = word ↔ channelOf word = 0 :=
  Bits.and_not_mask_eq_self_iff

/-- There is no channel in the data. -/
theorem channelOf_dataOf (word : BitVec 32) : channelOf (dataOf word) = 0 := by
  rw [channelOf, dataOf, BitVec.and_assoc, BitVec.and_comm (~~~0xF)]
  simp

/-! ### Waiting -/

theorem MailDevice.words_poll (m : MailDevice) : m.poll.words = m.words := by
  cases m with
  | mk fifo full sent events =>
      cases events with
      | nil => rfl
      | cons e es => exact List.append_assoc fifo e.arrived _

theorem MailDevice.sent_poll (m : MailDevice) : m.poll.sent = m.sent := by
  cases m with
  | mk fifo full sent events =>
      cases events with
      | nil => rfl
      | cons e es => rfl

theorem MailDevice.events_poll (m : MailDevice) : m.poll.events = m.events.tail := by
  cases m with
  | mk fifo full sent events =>
      cases events with
      | nil => rfl
      | cons e es => rfl

/-- When nothing happens any more, the words have arrived. -/
theorem MailDevice.events_iterate (n : ℕ) (m : MailDevice) :
    (poll^[n] m).events = m.events.drop n := by
  induction n generalizing m with
  | zero => rfl
  | succ n ih => rw [Function.iterate_succ_apply, ih, events_poll, List.drop_tail]

theorem MailDevice.words_iterate (n : ℕ) (m : MailDevice) : (poll^[n] m).words = m.words := by
  induction n generalizing m with
  | zero => rfl
  | succ n ih => rw [Function.iterate_succ_apply, ih, words_poll]

/-- What the two bits of the status say. -/
theorem MailDevice.status_bits (m : MailDevice) :
    (m.status &&& mailEmpty = 0 ↔ m.fifo ≠ []) ∧ (m.status &&& mailFull = 0 ↔ m.full = false) := by
  unfold status mailFull mailEmpty
  by_cases hempty : m.fifo = []
  · cases m.full with
    | false => simp [hempty]
    | true => simp [hempty]
  · cases m.full with
    | false => simp [hempty]
    | true => simp [hempty]

/-- **A wait ends**, if what it waits for happens, and no word is lost. -/
theorem waitWhile_spec {mask : BitVec 32} (n : ℕ) :
    ∀ (m : MailDevice) (k : ℕ), k < n → (MailDevice.poll^[k + 1] m).status &&& mask = 0 →
      ∃ m', waitWhile mask n m = .ok m' ∧ m'.status &&& mask = 0 ∧ m'.words = m.words ∧
        m'.sent = m.sent := by
  induction n with
  | zero =>
      intro m k hk
      omega
  | succ n ih =>
      intro m k hk hready
      rw [waitWhile]
      by_cases hnow : m.poll.status &&& mask = 0
      · rw [if_neg (not_not.mpr hnow)]
        exact ⟨m.poll, rfl, hnow, m.words_poll, m.sent_poll⟩
      · rw [if_pos hnow]
        cases k with
        | zero => exact absurd hready hnow
        | succ k =>
            obtain ⟨m', hwait, hready', hwords, hsent⟩ := ih m.poll k (by omega) hready
            exact ⟨m', hwait, hready', hwords.trans m.words_poll, hsent.trans m.sent_poll⟩

/-- **What `write_mailbox` does**, if there is room at some time. -/
theorem writeMailbox_spec (m : MailDevice) {channel data : BitVec 32}
    (hchannel : channel &&& 0xF = channel) (hdata : data &&& 0xF = 0) {k : ℕ}
    (hk : k ≤ m.events.length) (hroom : (MailDevice.poll^[k + 1] m).full = false) :
    ∃ m', writeMailbox m channel data = .ok (0, m') ∧ m'.sent = m.sent ++ [channel ||| data] ∧
      m'.words = m.words := by
  obtain ⟨m', hwait, -, hwords, hsent⟩ := waitWhile_spec (m.events.length + 1) m k (by omega)
    ((MailDevice.status_bits _).2.mpr hroom)
  refine ⟨{ m' with sent := m'.sent ++ [channel ||| data] }, ?_, by rw [hsent], hwords⟩
  rw [writeMailbox, if_neg (not_not.mpr hdata), if_neg (not_not.mpr hchannel), if_neg (by decide),
    hwait]
  rfl

/-- **What `read_mailbox` does**: it takes the next word. -/
theorem readMailbox_spec {m : MailDevice} {channel word : BitVec 32} {later : List (BitVec 32)}
    (hchannel : channel &&& 0xF = channel) (hwords : m.words = word :: later) :
    ∃ m', readMailbox m channel = .ok ⟨0, some word, m'⟩ ∧ m'.words = later := by
  have harrived : (MailDevice.poll^[m.events.length + 1] m).fifo ≠ [] := by
    have hevents := m.events_iterate (m.events.length + 1)
    have hall := m.words_iterate (m.events.length + 1)
    rw [List.drop_eq_nil_of_le (Nat.le_succ _)] at hevents
    rw [MailDevice.words, hevents, List.flatMap_nil, List.append_nil, hwords] at hall
    rw [hall]
    exact List.cons_ne_nil word later
  obtain ⟨m', hwait, hready, hwords', -⟩ := waitWhile_spec (m.events.length + 1) m m.events.length
    (Nat.lt_succ_self _) ((MailDevice.status_bits _).1.mpr harrived)
  rw [hwords] at hwords'
  rw [readMailbox, if_neg (not_not.mpr hchannel), if_neg (by decide), hwait, ok_bind]
  cases hfifo : m'.fifo with
  | nil => exact absurd hfifo (m'.status_bits.1.mp hready)
  | cons d fifo =>
      rw [MailDevice.words, hfifo, List.cons_append] at hwords'
      obtain ⟨rfl, hlater⟩ := List.cons.inj hwords'
      exact ⟨{ m' with fifo := fifo }, rfl, hlater⟩

/-! ### The law of reading -/

/-- **The law of reading**: the first word that is addressed to the channel is taken, and its data is
stored. -/
def ReadsFirst (m : MailDevice) (channel : BitVec 32) (r : MailRead) : Prop :=
  ∃ skipped word, m.words = skipped ++ word :: r.device.words ∧
    (∀ w ∈ skipped, channelOf w ≠ channel) ∧ channelOf word = channel ∧
    r.data = some (dataOf word)

/-- What is read under the law has no channel in it. -/
theorem ReadsFirst.channel_zero {m : MailDevice} {channel d : BitVec 32} {r : MailRead}
    (hlaw : ReadsFirst m channel r) (hd : r.data = some d) : channelOf d = 0 := by
  obtain ⟨skipped, word, -, -, -, hdata⟩ := hlaw
  rw [Option.some.inj (hd.symm.trans hdata)]
  exact channelOf_dataOf word

/-- **The law holds for channel 0 when its word is the next one, and never else**; and a word that
comes back is read as the data it was written with on channel 0 only. -/
theorem reads_first_iff (m : MailDevice) {channel : BitVec 32} (hchannel : channel &&& 0xF = channel)
    (haddressed : ∃ w ∈ m.words, channelOf w = channel) :
    ∃ r, readMailbox m channel = .ok r ∧
      (ReadsFirst m channel r ↔ channel = 0 ∧ ∃ w ∈ m.words.head?, channelOf w = 0) ∧
      ∀ data, data &&& 0xF = 0 → m.words.head? = some (channel ||| data) →
        (r.data = some data ↔ channel = 0) := by
  cases hwords : m.words with
  | nil =>
      rw [hwords] at haddressed
      obtain ⟨w, hw, -⟩ := haddressed
      exact absurd hw List.not_mem_nil
  | cons word later =>
      obtain ⟨m', hread, hlater⟩ := readMailbox_spec hchannel hwords
      refine ⟨_, hread, ⟨?_, ?_⟩, ?_⟩
      · intro hlaw
        have hzero : channelOf word = 0 := hlaw.channel_zero rfl
        obtain ⟨skipped, taken, hsplit, -, hown, -⟩ := hlaw
        have hlength := congrArg List.length hsplit
        rw [hwords, hlater, List.length_append, List.length_cons, List.length_cons] at hlength
        have hfirst : skipped = [] := List.length_eq_zero_iff.mp (by omega)
        rw [hwords, hlater, hfirst, List.nil_append] at hsplit
        obtain ⟨rfl, -⟩ := List.cons.inj hsplit
        exact ⟨hown.symm.trans hzero, word, rfl, hzero⟩
      · rintro ⟨rfl, w, hw, hzero⟩
        obtain rfl : word = w := Option.some.inj hw
        refine ⟨[], word, ?_, fun v hv => absurd hv List.not_mem_nil, hzero, ?_⟩
        · rw [hwords, hlater, List.nil_append]
        · rw [dataOf_eq_self_iff.mpr hzero]
      · intro data hdata hhead
        obtain rfl : word = channel ||| data := Option.some.inj hhead
        rw [Option.some.injEq]
        constructor
        · intro hsame
          rw [← (parts_or hchannel hdata).1, hsame]
          exact hdata
        · intro hzero
          simp [hzero]

/-- A word for channel 0. -/
theorem reads_first_iff_channel_zero :
    ∃ r, readMailbox ⟨[0x40010000], false, [], []⟩ 0 = .ok r ∧
      (ReadsFirst ⟨[0x40010000], false, [], []⟩ 0 r ↔ (0 : BitVec 32) = 0 ∧
        ∃ w ∈ MailDevice.words ⟨[0x40010000], false, [], []⟩ |>.head?, channelOf w = 0) ∧
      ∀ data, data &&& 0xF = 0 →
        (MailDevice.words ⟨[0x40010000], false, [], []⟩).head? = some (0 ||| data) →
          (r.data = some data ↔ (0 : BitVec 32) = 0) :=
  reads_first_iff ⟨[0x40010000], false, [], []⟩ rfl ⟨0x40010000, List.mem_singleton.mpr rfl, rfl⟩

/-- The word of a request on channel 8 comes back, behind one for channel 1: it is the other word
that is read, and when its own one is read, the channel is still in it. -/
theorem not_reads_first_property :
    ∃ r r', readMailbox ⟨[0x00000001, 0x40010008], false, [], []⟩ 8 = .ok r ∧
      r.data = some 0x00000001 ∧
      ¬ ReadsFirst ⟨[0x00000001, 0x40010008], false, [], []⟩ 8 r ∧
      readMailbox r.device 8 = .ok r' ∧ r'.data = some 0x40010008 ∧
      ¬ ReadsFirst r.device 8 r' := by
  refine ⟨⟨0, some 0x00000001, ⟨[0x40010008], false, [], []⟩⟩,
    ⟨0, some 0x40010008, ⟨[], false, [], []⟩⟩, rfl, rfl, ?_, rfl, rfl, ?_⟩
  · exact fun hlaw => absurd (hlaw.channel_zero rfl) (by decide)
  · exact fun hlaw => absurd (hlaw.channel_zero rfl) (by decide)

end Aim
