/-
**The property channel of the mailbox.**

Over channel 8 of the mailbox the kernel hands the VideoCore a buffer of 4096 bytes with a message
of tags, and the VideoCore answers in place: it writes whether it has understood, and its answers
over the values of the tags.  `ask_property` carries a row of tags there and back, `ask_property_tag`
one tag with a value of its own size, and `fbinit` three messages, the second of them with four tags,
to get a frame buffer.

The VideoCore is a parameter: what it means by its answers is its `exchange`, from the tags of a
message to the tags of the answer, if it understands the message.  All the copying, splicing and
polling on the way is invisible: the three functions return what a dialogue of tags returns.

Main definitions:

* `Aim.VideoCore`, `Aim.VideoCore.Means` — the other side, and what it does with messages;
* `Aim.askProperty`, `Aim.askPropertyTag`, `Aim.fbinit` — `mailbox.c` and `fb.c`;
* `Aim.VideoCore.ofExchange` — a VideoCore for every exchange;
* `Aim.askTag`, `Aim.fbDialogue` — the dialogues.

Main results:

* `Aim.askProperty_spec`, `Aim.askPropertyTag_spec` — tags are answered in place;
* `Aim.askCalls_answers` — **every call gets its own answer**;
* `Aim.fbinit_spec` — **`fbinit` is its dialogue.**
-/

import AimKernel.CString
import AimKernel.Framebuffer
import AimKernel.Mailbox
import AimKernel.TaggedMessage

set_option relaxedAutoImplicit false
set_option autoImplicit false

namespace Aim

open TaggedMessage

/-! ### The other side -/

/-- The VideoCore, with states in `σ`: how long it keeps the mailbox full, what it makes of its state
and of a buffer that it is handed, and how long that takes. -/
structure VideoCore (σ : Type) where
  busy : σ → ℕ
  serve : σ → Bytes → σ × Bytes
  delay : σ → ℕ
  length_serve : ∀ s bs, (serve s bs).2.length = bs.length

/-- `MAILBOX_CHANNEL_PROPERTY`. -/
def mailboxChannelProperty : BitVec 32 := 8

/-- `PROPERTY_BUFSIZE`. -/
def propertyBufsize : ℕ := 4096

/-- `PROPERTY_DATASIZE`. -/
def propertyDatasize : ℕ := propertyBufsize - 12

/-- `PROPERTY_CODE_REQUEST`. -/
def propertyCodeRequest : BitVec 32 := 0

/-- `PROPERTY_CODE_SUCCESS`. -/
def propertyCodeSuccess : BitVec 32 := 0x80000000

/-- `PROPERTY_CODE_ERROR`. -/
def propertyCodeError : BitVec 32 := 0x80000001

/-- `premap_addr(a)`. -/
def premapAddr (a : BitVec 32) : BitVec 32 := if a ≥ 0x80000000 then a - 0x80000000 else a

/-- `PA2VCA(addr)`. -/
def pa2vca (addr : BitVec 32) : BitVec 32 := addr + 0x40000000

/-- The state of the VideoCore, and `__property_buffer`, which is used again for every message. -/
structure PropertyState (σ : Type) where
  core : σ
  buffer : Bytes
  size : buffer.length = propertyBufsize

/-- Writing to the buffer. -/
def PropertyState.write {σ : Type} (s : PropertyState σ) (off : ℕ) (bs : Bytes)
    (h : off + bs.length ≤ propertyBufsize) : PropertyState σ where
  core := s.core
  buffer := splice s.buffer off bs
  size := (length_splice (by rw [s.size]; exact h)).trans s.size

/-- What `ask_property` writes before it hands over the buffer: a head, the caller's bytes, and the
end tag. -/
def PropertyState.fill {σ : Type} (s : PropertyState σ) (buf : Bytes) (reqsize : ℕ)
    (hreq : reqsize ≤ propertyDatasize) : PropertyState σ :=
  let s := s.write 0 (bytesOf (BitVec.ofNat 32 propertyBufsize)) (by decide)
  let s := s.write 4 (bytesOf propertyCodeRequest) (by decide)
  let s := s.write 8 (buf.take reqsize) (by
    simp only [propertyDatasize, propertyBufsize] at hreq ⊢
    rw [List.length_take]
    omega)
  s.write (8 + reqsize) (List.replicate 4 0) (by
    simp only [propertyDatasize, propertyBufsize] at hreq ⊢
    rw [List.length_replicate]
    omega)

namespace VideoCore

variable {σ : Type} (vc : VideoCore σ)

/-- The mailbox between two messages: it is empty, and full for a while. -/
def mailbox (s : σ) : MailDevice :=
  ⟨[], true, [], List.replicate (vc.busy s) ⟨[], true⟩ ++ [⟨[], false⟩]⟩

/-- The VideoCore serves the buffer. -/
def process (s : PropertyState σ) : PropertyState σ where
  core := (vc.serve s.core s.buffer).1
  buffer := (vc.serve s.core s.buffer).2
  size := (vc.length_serve s.core s.buffer).trans s.size

/-- What a written word does: one for the property channel, with the address of the buffer, makes the
VideoCore serve the buffer and send the word back. -/
def hear (pa : BitVec 32) (s : PropertyState σ) (m : MailDevice) : PropertyState σ × MailDevice :=
  if m.sent = [mailboxChannelProperty ||| pa2vca pa] then
    (vc.process s, { m with events := List.replicate (vc.delay s.core) ⟨[], false⟩ ++
      [⟨[mailboxChannelProperty ||| pa2vca pa], false⟩] })
  else (s, m)

end VideoCore

/-! ### `mailbox.c` -/

/-- What `ask_property` and `ask_property_tag` return, what is in the caller's buffer afterwards, and
what is left behind. -/
structure PropertyReply (σ : Type) where
  ret : ℤ
  buf : Bytes
  state : PropertyState σ

section Source

variable {σ : Type} (vc : VideoCore σ) (pa addr : BitVec 32)

/-- `ask_property(buf, reqsize, bufsize)`; `__property_buffer` is at the physical address `pa`, and
the kernel knows it by the address `addr`. -/
def askProperty (s : PropertyState σ) (buf : Bytes) (reqsize bufsize : ℕ) :
    Except MailFault (PropertyReply σ) :=
  if hreq : reqsize ≤ propertyDatasize then
    if ¬ bufsize ≤ propertyDatasize then .error .assertion
    else do
      let s := s.fill buf reqsize hreq
      let (r, m) ← writeMailbox (vc.mailbox s.core) mailboxChannelProperty
        (pa2vca (premapAddr addr))
      if r < 0 then
        return ⟨r, buf, s⟩
      let (s, m) := vc.hear pa s m
      let read ← readMailbox m mailboxChannelProperty
      if read.ret < 0 then
        return ⟨read.ret, buf, s⟩
      if wordOf (s.buffer.drop 4) ≠ propertyCodeSuccess then
        return ⟨-1, buf, s⟩
      return ⟨0, splice buf 0 ((s.buffer.drop 8).take bufsize), s⟩
  else .error .assertion

/-- The three words in front of a value: `struct property_header`.  `size` has the low 31 bits of the
last word, and `type` its highest bit. -/
def propertyHeader (id : BitVec 32) (bufsize size : ℕ) (type : Bool) : Bytes :=
  bytesOf id ++ (bytesOf (BitVec.ofNat 32 bufsize) ++
    bytesOf ((BitVec.ofNat 32 size &&& 0x7FFFFFFF) ||| if type then 0x80000000 else 0))

/-- `PROPERTY_TAG_VALBUFSIZE`. -/
def propertyTagValbufsize : ℕ := propertyBufsize - 24

/-- What `ask_property_tag` returns: also the size of the response. -/
structure PropertyTagReply (σ : Type) extends PropertyReply σ where
  ressize : Option (BitVec 32)

/-- `ask_property_tag(id, buf, reqsize, bufsize, ressize)`. -/
def askPropertyTag (s : PropertyState σ) (id : BitVec 32) (buf : Bytes) (reqsize bufsize : ℕ) :
    Except MailFault (PropertyTagReply σ) :=
  if ¬ reqsize ≤ propertyTagValbufsize then .error .assertion
  else if ¬ bufsize ≤ propertyTagValbufsize then .error .assertion
  else do
    let tag := propertyHeader id propertyTagValbufsize reqsize false ++
      splice (List.replicate propertyTagValbufsize 0) 0 (buf.take reqsize)
    let ⟨r, tag, s⟩ ← askProperty vc pa addr s tag tag.length tag.length
    if r < 0 then
      return ⟨⟨r, buf, s⟩, none⟩
    if (wordOf (tag.drop 8)).msb = false then
      return ⟨⟨-1, buf, s⟩, none⟩
    return ⟨⟨0, splice buf 0 ((tag.drop 12).take bufsize), s⟩,
      some (wordOf (tag.drop 8) &&& 0x7FFFFFFF)⟩

/-! ### `fb.c` -/

/-- `MAILBOX_PROP_FB_GETDISPLAYSIZE`. -/
def fbGetdisplaysize : BitVec 32 := 0x00040003

/-- `MAILBOX_PROP_FB_ALLOCBUFFER`. -/
def fbAllocbuffer : BitVec 32 := 0x00040001

/-- `MAILBOX_PROP_FB_SETDISPLAYSIZE`. -/
def fbSetdisplaysize : BitVec 32 := 0x00048003

/-- `MAILBOX_PROP_FB_SETBUFFERSIZE`. -/
def fbSetbuffersize : BitVec 32 := 0x00048004

/-- `MAILBOX_PROP_FB_SETDEPTH`. -/
def fbSetdepth : BitVec 32 := 0x00048005

/-- `MAILBOX_PROP_FB_GETPITCH`. -/
def fbGetpitch : BitVec 32 := 0x00040008

/-- `RPI2_VC_POFFSET_NOL2CACHE`. -/
def vcPoffsetNol2cache : BitVec 32 := 0xC0000000

/-- `*fb`: where the bits are, and what else is known of the display. -/
structure FbDevice where
  bits : BitVec 32
  info : FbInfo

/-- What `fbinit` returns, what it writes to `*fb`, and what is left behind. -/
structure FbReply (σ : Type) where
  ret : ℤ
  fb : Option FbDevice
  state : PropertyState σ

/-- The four tags of the request of `fbinit`; only the first word of the last value is written,
`junk` is in the other one. -/
def fbRequest (scrinfo : Bytes) (junk : BitVec 32) : Bytes :=
  propertyHeader fbSetdisplaysize 8 8 false ++ scrinfo ++
    propertyHeader fbSetbuffersize 8 8 false ++ scrinfo ++
    propertyHeader fbSetdepth 4 4 false ++ bytesOf 24 ++
    propertyHeader fbAllocbuffer 8 4 false ++ (bytesOf (1024 * 1024 * 2) ++ bytesOf junk)

/-- `fbinit(fb)`; `junk` is what is on the stack. -/
def fbinit (s : PropertyState σ) (junk : BitVec 32) : Except MailFault (FbReply σ) := do
  let scrinfo := bytesOf junk ++ bytesOf junk
  let ⟨⟨r, scrinfo, s⟩, _⟩ ← askPropertyTag vc pa addr s fbGetdisplaysize scrinfo 0 8
  if r < 0 then
    return ⟨r, none, s⟩
  let req := fbRequest scrinfo junk
  let ⟨r, req, s⟩ ← askProperty vc pa addr s req req.length req.length
  if r < 0 then
    return ⟨r, none, s⟩
  if memcmp 8 (req.drop 12) scrinfo ≠ 0 then
    return ⟨-1, none, s⟩
  if memcmp 8 (req.drop 32) scrinfo ≠ 0 then
    return ⟨-1, none, s⟩
  if wordOf (req.drop 52) ≠ 24 then
    return ⟨-1, none, s⟩
  if wordOf (req.drop 68) = 0 ∨ wordOf (req.drop 72) = 0 then
    return ⟨-1, none, s⟩
  let ⟨⟨r, pitch, s⟩, _⟩ ← askPropertyTag vc pa addr s fbGetpitch (bytesOf junk) 0 4
  if r < 0 then
    return ⟨r, none, s⟩
  return ⟨0, some ⟨wordOf (req.drop 68) - vcPoffsetNol2cache,
    ⟨(wordOf scrinfo).toNat, (wordOf (scrinfo.drop 4)).toNat, (wordOf pitch).toNat⟩⟩, s⟩

end Source

/-! ### Messages over the mailbox -/

section Messages

variable {σ : Type} {vc : VideoCore σ} {pa addr : BitVec 32}

/-- The buffer that is handed over. -/
theorem PropertyState.fill_buffer (s : PropertyState σ) {buf : Bytes} {reqsize : ℕ}
    (hreq : reqsize ≤ propertyDatasize) (hbuf : reqsize ≤ buf.length) :
    (s.fill buf reqsize hreq).buffer = bytesOf (BitVec.ofNat 32 propertyBufsize) ++
      (bytesOf propertyCodeRequest ++
        (buf.take reqsize ++ (bytesOf 0 ++ s.buffer.drop (12 + reqsize)))) := by
  have hreq' := hreq
  have hsize := s.size
  simp only [propertyDatasize, propertyBufsize] at hreq' hsize
  have htake : (buf.take reqsize).length = reqsize := by rw [List.length_take, Nat.min_eq_left hbuf]
  have hend : List.replicate 4 0 = bytesOf 0 := rfl
  -- the four writes join, one behind the other
  have h₁ : splice (splice s.buffer 0 (bytesOf (BitVec.ofNat 32 propertyBufsize))) 4
      (bytesOf propertyCodeRequest) = splice s.buffer 0
        (bytesOf (BitVec.ofNat 32 propertyBufsize) ++ bytesOf propertyCodeRequest) :=
    splice_append _ _ _ (Nat.zero_le _)
  have h₂ := splice_append s.buffer (bytesOf (BitVec.ofNat 32 propertyBufsize) ++
    bytesOf propertyCodeRequest) (buf.take reqsize) (Nat.zero_le _)
  have h₃ := splice_append s.buffer (bytesOf (BitVec.ofNat 32 propertyBufsize) ++
    bytesOf propertyCodeRequest ++ buf.take reqsize) (List.replicate 4 0) (Nat.zero_le _)
  rw [List.length_append, length_bytesOf, length_bytesOf, Nat.zero_add] at h₂
  rw [List.length_append, List.length_append, length_bytesOf, length_bytesOf, htake,
    Nat.zero_add] at h₃
  change splice (splice (splice (splice s.buffer 0 _) 4 _) 8 _) (8 + reqsize) _ = _
  rw [h₁, h₂, h₃, splice, List.take_zero, List.nil_append, hend]
  simp only [List.append_assoc, List.length_append, length_bytesOf, htake]
  congr 4
  congr 1
  omega

/-- The VideoCore's address of an aligned buffer leaves room for the channel. -/
theorem pa2vca_aligned (haligned : pa &&& 0xF = 0) : pa2vca pa &&& 0xF = 0 := by
  have hmod : ∀ x : BitVec 32, (x &&& 0xF).toNat = x.toNat % 2 ^ 4 := fun x => by
    rw [BitVec.toNat_and]
    exact Nat.and_two_pow_sub_one_eq_mod _ 4
  have hzero : (0 : BitVec 32).toNat = 0 := rfl
  have hoff : (0x40000000 : BitVec 32).toNat = 0x40000000 := rfl
  have hpa := congrArg BitVec.toNat haligned
  rw [hmod, hzero] at hpa
  refine BitVec.eq_of_toNat_eq ?_
  rw [hmod, pa2vca, BitVec.toNat_add, hoff, hzero]
  omega

/-- The mailbox becomes free, and the word is sent. -/
theorem VideoCore.write_mailbox (s : σ) {data : BitVec 32} (hdata : data &&& 0xF = 0) :
    ∃ m, writeMailbox (vc.mailbox s) mailboxChannelProperty data = .ok (0, m) ∧
      m.sent = [mailboxChannelProperty ||| data] ∧ m.words = [] := by
  have hroom : ∀ n full, (MailDevice.poll^[n + 1]
      ⟨[], full, [], List.replicate n ⟨[], true⟩ ++ [⟨[], false⟩]⟩).full = false := by
    intro n
    induction n with
    | zero => exact fun _ => rfl
    | succ n ih =>
        intro full
        rw [Function.iterate_succ_apply]
        exact ih true
  have hwords : (vc.mailbox s).words = [] := by simp [MailDevice.words, VideoCore.mailbox]
  obtain ⟨m, hwrite, hsent, hwords'⟩ := writeMailbox_spec (vc.mailbox s)
    (show mailboxChannelProperty &&& 0xF = mailboxChannelProperty by decide) hdata (k := vc.busy s)
    (by simp [VideoCore.mailbox]) (hroom _ _)
  exact ⟨m, hwrite, by rw [hsent]; rfl, hwords'.trans hwords⟩

variable (vc) in
/-- The word that was written makes the VideoCore serve the buffer, and it comes back. -/
theorem VideoCore.hear_read (s : PropertyState σ) {m : MailDevice}
    (hsent : m.sent = [mailboxChannelProperty ||| pa2vca pa]) (hwords : m.words = []) :
    (vc.hear pa s m).1 = vc.process s ∧
      ∃ m', readMailbox (vc.hear pa s m).2 mailboxChannelProperty =
        .ok ⟨0, some (mailboxChannelProperty ||| pa2vca pa), m'⟩ := by
  have hfifo : m.fifo = [] := (List.append_eq_nil_iff.1 hwords).1
  rw [VideoCore.hear, if_pos hsent]
  refine ⟨rfl, ?_⟩
  have hreply : MailDevice.words { m with events := List.replicate (vc.delay s.core) ⟨[], false⟩ ++
      [⟨[mailboxChannelProperty ||| pa2vca pa], false⟩] } =
        [mailboxChannelProperty ||| pa2vca pa] := by
    simp [MailDevice.words, hfifo]
  obtain ⟨m', hread, -⟩ := readMailbox_spec
    (show mailboxChannelProperty &&& 0xF = mailboxChannelProperty by decide) hreply
  exact ⟨m', hread⟩

variable (vc) in
/-- **What `ask_property` does**: the VideoCore serves the buffer. -/
theorem askProperty_eq (hpa : premapAddr addr = pa) (haligned : pa &&& 0xF = 0)
    (s : PropertyState σ) (buf : Bytes) {reqsize bufsize : ℕ} (hreq : reqsize ≤ propertyDatasize)
    (hbufsize : bufsize ≤ propertyDatasize) :
    askProperty vc pa addr s buf reqsize bufsize = .ok (
      let s' := vc.process (s.fill buf reqsize hreq)
      if wordOf (s'.buffer.drop 4) ≠ propertyCodeSuccess then ⟨-1, buf, s'⟩
      else ⟨0, splice buf 0 ((s'.buffer.drop 8).take bufsize), s'⟩) := by
  obtain ⟨m, hwrite, hsent, hwords⟩ := vc.write_mailbox s.core (pa2vca_aligned haligned)
  obtain ⟨hserve, m', hread⟩ := vc.hear_read (s.fill buf reqsize hreq) hsent hwords
  rw [askProperty, dif_pos hreq, if_neg (not_not.2 hbufsize), hpa]
  change (writeMailbox (vc.mailbox s.core) mailboxChannelProperty (pa2vca pa) >>= _) = _
  rw [hwrite, ok_bind]
  simp only [lt_irrefl, if_false]
  rw [hserve, hread, ok_bind]
  simp only [lt_irrefl, if_false]
  split <;> rfl

end Messages

/-! ### What the answers mean -/

/-- **What the VideoCore means**: `exchange` takes its state and the tags of a request to its next
state and, if it understands the message, the tags of the answer.  It reads the tags as they are laid
out, and then it writes that it has understood, and the answers in place; otherwise it writes another
code. -/
structure VideoCore.Means {σ : Type} (vc : VideoCore σ)
    (exchange : σ → List Tag → σ × Option (List Tag)) : Prop where
  understood : ∀ s bs tags rest s' tags', bs.length = propertyBufsize →
    wordOf (bs.drop 4) = propertyCodeRequest → parse (bs.drop 8) = some (tags, rest) →
    exchange s tags = (s', some tags') → Answers tags tags' ∧
      ∃ size rest', vc.serve s bs =
        (s', bytesOf size ++ (bytesOf propertyCodeSuccess ++ (encodeTags tags' ++ rest')))
  refused : ∀ s bs tags rest s', bs.length = propertyBufsize →
    wordOf (bs.drop 4) = propertyCodeRequest → parse (bs.drop 8) = some (tags, rest) →
    exchange s tags = (s', none) →
      (vc.serve s bs).1 = s' ∧ wordOf ((vc.serve s bs).2.drop 4) ≠ propertyCodeSuccess

/-- **A VideoCore for an exchange**: it reads a message, and writes what the exchange says. -/
def VideoCore.ofExchange {σ : Type} (exchange : σ → List Tag → σ × Option (List Tag))
    (busy delay : σ → ℕ) : VideoCore σ where
  busy := busy
  delay := delay
  serve s bs :=
    match parse (bs.drop 8) with
    | some (tags, _) =>
        match exchange s tags with
        | (s, some tags') =>
            (s, overwrite bs 4 (bytesOf propertyCodeSuccess ++ encodeTags tags'))
        | (s, none) => (s, overwrite bs 4 (bytesOf propertyCodeError))
    | none => (s, overwrite bs 4 (bytesOf propertyCodeError))
  length_serve s bs := by
    split
    · split
      · exact length_overwrite _ _ _
      · exact length_overwrite _ _ _
    · exact length_overwrite _ _ _

/-- Writing to the second word of a buffer keeps the first one. -/
theorem overwrite_code {bs new : Bytes} (h : 4 + new.length ≤ bs.length) :
    overwrite bs 4 new = bytesOf (wordOf bs) ++ (new ++ bs.drop (4 + new.length)) := by
  have hword : 4 ≤ bs.length := by omega
  rw [overwrite, if_pos h, splice, bytesOf_wordOf hword]

/-- An exchange that answers tags with tags of the same sizes is what its VideoCore means. -/
theorem VideoCore.ofExchange_means {σ : Type} {exchange : σ → List Tag → σ × Option (List Tag)}
    (hanswers : ∀ s tags tags', (exchange s tags).2 = some tags' → Answers tags tags')
    (busy delay : σ → ℕ) : (VideoCore.ofExchange exchange busy delay).Means exchange := by
  constructor
  · intro s bs tags rest s' tags' hsize _ hparse hex
    have hanswer : Answers tags tags' := hanswers s tags tags' (by rw [hex])
    have hlength := length_of_parse hparse
    rw [List.length_drop] at hlength
    have hroom : 4 + (bytesOf propertyCodeSuccess ++ encodeTags tags').length ≤ bs.length := by
      rw [List.length_append, length_bytesOf, length_encodeTags_of_answers hanswer]
      omega
    have hserve : (VideoCore.ofExchange exchange busy delay).serve s bs =
        (s', overwrite bs 4 (bytesOf propertyCodeSuccess ++ encodeTags tags')) := by
      simp only [VideoCore.ofExchange, hparse, hex]
    rw [overwrite_code hroom, List.append_assoc] at hserve
    exact ⟨hanswer, _, _, hserve⟩
  · intro s bs tags rest s' hsize _ hparse hex
    have hroom : 4 + (bytesOf propertyCodeError).length ≤ bs.length := by
      rw [length_bytesOf, hsize]
      decide
    have hserve : (VideoCore.ofExchange exchange busy delay).serve s bs =
        (s', overwrite bs 4 (bytesOf propertyCodeError)) := by
      simp only [VideoCore.ofExchange, hparse, hex]
    rw [overwrite_code hroom] at hserve
    rw [hserve, ← Nat.zero_add 4, drop_bytesOf_append, List.drop_zero, wordOf_bytesOf_append]
    exact ⟨rfl, by decide⟩

/-- The answer to a tag with some bytes for its value. -/
def answerTag (values : BitVec 32 → Bytes) (t : Tag) : Tag where
  id := t.id
  code := 0x80000000 ||| BitVec.ofNat 32 (values t.id).length
  value := overwrite t.value 0 (values t.id)
  id_ne := t.id_ne
  words := by rw [length_overwrite]; exact t.words
  small := by rw [length_overwrite]; exact t.small

/-- The exchange of a VideoCore that has a table of values, and answers every tag from it. -/
def tableExchange (values : BitVec 32 → Bytes) (s : Unit) (tags : List Tag) :
    Unit × Option (List Tag) :=
  (s, some (tags.map (answerTag values)))

/-- A VideoCore with a table answers every tag with one of the same size. -/
theorem tableExchange_answers (values : BitVec 32 → Bytes) (s : Unit) (tags tags' : List Tag)
    (h : (tableExchange values s tags).2 = some tags') : Answers tags tags' := by
  obtain rfl := Option.some.inj h
  induction tags with
  | nil => exact List.Forall₂.nil
  | cons t tags ih => exact List.Forall₂.cons ⟨rfl, length_overwrite _ _ _⟩ (ih rfl)

section Dialogue

variable {σ : Type} {vc : VideoCore σ} {exchange : σ → List Tag → σ × Option (List Tag)}
  {pa addr : BitVec 32}

/-- What `ask_property` returns for a row of tags. -/
def rowReply (tags : List Tag) (s : PropertyState σ) : Option (List Tag) → PropertyReply σ
  | some tags' => ⟨0, encodeTags tags', s⟩
  | none => ⟨-1, encodeTags tags, s⟩

/-- **A row of tags is answered in place.** -/
theorem askProperty_spec (hmeans : vc.Means exchange) (hpa : premapAddr addr = pa)
    (haligned : pa &&& 0xF = 0) (s : PropertyState σ) (tags : List Tag)
    (hfits : (encodeTags tags).length ≤ propertyDatasize) :
    (∀ tags', (exchange s.core tags).2 = some tags' → Answers tags tags') ∧
    ∃ s', s'.core = (exchange s.core tags).1 ∧
      askProperty vc pa addr s (encodeTags tags) (encodeTags tags).length (encodeTags tags).length =
        .ok (rowReply tags s' (exchange s.core tags).2) := by
  have hbuffer := s.fill_buffer hfits (le_refl _)
  rw [List.take_length] at hbuffer
  have hcore : (s.fill (encodeTags tags) (encodeTags tags).length hfits).core = s.core := rfl
  have hask := askProperty_eq vc hpa haligned s (encodeTags tags) hfits hfits
  generalize s.fill (encodeTags tags) (encodeTags tags).length hfits = t at hbuffer hcore hask
  have hrequest : wordOf (t.buffer.drop 4) = propertyCodeRequest := by
    rw [hbuffer, drop_bytesOf_append, List.drop_zero, wordOf_bytesOf_append]
  have hparse : parse (t.buffer.drop 8) =
      some (tags, s.buffer.drop (12 + (encodeTags tags).length)) := by
    rw [hbuffer, drop_bytesOf_append, drop_bytesOf_append, List.drop_zero, ← List.append_assoc]
    exact parse_encode tags _
  rw [hask, ← hcore]
  cases hex : exchange t.core tags with
  | mk core answer =>
      cases answer with
      | none =>
          obtain ⟨hcore', hcode⟩ := hmeans.refused _ _ _ _ _ t.size hrequest hparse hex
          have hcode' : wordOf ((vc.process t).buffer.drop 4) ≠ propertyCodeSuccess := hcode
          refine ⟨by simp, vc.process t, hcore', ?_⟩
          dsimp only
          rw [if_pos hcode']
          rfl
      | some tags' =>
          obtain ⟨hanswers, size, rest', hserve⟩ :=
            hmeans.understood _ _ _ _ _ _ t.size hrequest hparse hex
          have hlength := length_encodeTags_of_answers hanswers
          have hbuffer' : (vc.process t).buffer =
              bytesOf size ++ (bytesOf propertyCodeSuccess ++ (encodeTags tags' ++ rest')) :=
            congrArg Prod.snd hserve
          have hcore' : (vc.process t).core = core := congrArg Prod.fst hserve
          generalize vc.process t = u at hbuffer' hcore' ⊢
          have hcode : wordOf (u.buffer.drop 4) = propertyCodeSuccess := by
            rw [hbuffer', drop_bytesOf_append, List.drop_zero, wordOf_bytesOf_append]
          have hdata : (u.buffer.drop 8).take (encodeTags tags).length = encodeTags tags' := by
            rw [hbuffer', drop_bytesOf_append, drop_bytesOf_append, List.drop_zero, ← hlength,
              List.take_left]
          refine ⟨?_, u, hcore', ?_⟩
          · rintro tags'' ⟨⟩
            exact hanswers
          · dsimp only
            rw [if_neg (not_not.2 hcode), hdata, splice_all hlength]
            rfl

end Dialogue

/-! ### One tag -/

/-- The value of the request of `ask_property_tag`: the caller's bytes, and zeros. -/
def requestValue (buf : Bytes) (reqsize : ℕ) : Bytes :=
  splice (List.replicate propertyTagValbufsize 0) 0 (buf.take reqsize)

theorem length_requestValue (buf : Bytes) {reqsize : ℕ} (h : reqsize ≤ propertyTagValbufsize) :
    (requestValue buf reqsize).length = propertyTagValbufsize := by
  rw [requestValue, length_splice, List.length_replicate]
  rw [List.length_replicate, List.length_take]
  omega

/-- The tag that `ask_property_tag` sends. -/
def requestTag (id : BitVec 32) (buf : Bytes) (reqsize : ℕ) (hid : id ≠ 0)
    (h : reqsize ≤ propertyTagValbufsize) : Tag where
  id := id
  code := BitVec.ofNat 32 reqsize
  value := requestValue buf reqsize
  id_ne := hid
  words := by rw [length_requestValue buf h]; decide
  small := by rw [length_requestValue buf h]; decide

/-- The tag for a question: nothing is sent with it. -/
def question (id : BitVec 32) (hid : id ≠ 0) : Tag := requestTag id [] 0 hid (Nat.zero_le _)

/-- **A dialogue of one tag**: the answer, if it has its response bit. -/
def askTag {σ : Type} (exchange : σ → List Tag → σ × Option (List Tag)) (s : σ) (t : Tag) :
    σ × Option Tag :=
  match exchange s [t] with
  | (s, some [t']) => (s, if t'.code.msb = true then some t' else none)
  | (s, _) => (s, none)

section OneTag

variable {σ : Type} {vc : VideoCore σ} {exchange : σ → List Tag → σ × Option (List Tag)}
  {pa addr : BitVec 32}

/-- The bytes of a header. -/
theorem propertyHeader_request (id : BitVec 32) (bufsize : ℕ) {size : ℕ} (h : size < 2 ^ 31) :
    propertyHeader id bufsize size false =
      bytesOf id ++ (bytesOf (BitVec.ofNat 32 bufsize) ++ bytesOf (BitVec.ofNat 32 size)) := by
  have hmask : (0x7FFFFFFF : BitVec 32).toNat = 2 ^ 31 - 1 := rfl
  have hcode : BitVec.ofNat 32 size &&& 0x7FFFFFFF = BitVec.ofNat 32 size := by
    refine BitVec.eq_of_toNat_eq ?_
    rw [BitVec.toNat_and, hmask, Nat.and_two_pow_sub_one_eq_mod, BitVec.toNat_ofNat]
    omega
  rw [propertyHeader, hcode]
  simp

/-- What `ask_property_tag` returns. -/
def tagReply (buf : Bytes) (bufsize : ℕ) (s : PropertyState σ) : Option Tag → PropertyTagReply σ
  | some t => ⟨⟨0, splice buf 0 (t.value.take bufsize), s⟩, some (t.code &&& 0x7FFFFFFF)⟩
  | none => ⟨⟨-1, buf, s⟩, none⟩

/-- **One tag is asked and answered.** -/
theorem askPropertyTag_spec (hmeans : vc.Means exchange) (hpa : premapAddr addr = pa)
    (haligned : pa &&& 0xF = 0) (s : PropertyState σ) {id : BitVec 32} (hid : id ≠ 0) (buf : Bytes)
    {reqsize bufsize : ℕ} (hreq : reqsize ≤ propertyTagValbufsize)
    (hbufsize : bufsize ≤ propertyTagValbufsize) :
    (∀ t, (askTag exchange s.core (requestTag id buf reqsize hid hreq)).2 = some t →
      t.value.length = propertyTagValbufsize) ∧
    ∃ s', s'.core = (askTag exchange s.core (requestTag id buf reqsize hid hreq)).1 ∧
      askPropertyTag vc pa addr s id buf reqsize bufsize = .ok (tagReply buf bufsize s'
        (askTag exchange s.core (requestTag id buf reqsize hid hreq)).2) := by
  have hlength := length_requestValue buf hreq
  have hsmall : reqsize < 2 ^ 31 := lt_of_le_of_lt hreq (by decide)
  have htag : propertyHeader id propertyTagValbufsize reqsize false ++ requestValue buf reqsize =
      encodeTags [requestTag id buf reqsize hid hreq] := by
    rw [propertyHeader_request _ _ hsmall, encodeTags, List.flatMap_cons, List.flatMap_nil,
      List.append_nil, Tag.encode, requestTag, hlength, List.append_assoc, List.append_assoc]
  have hfits : (encodeTags [requestTag id buf reqsize hid hreq]).length ≤ propertyDatasize := by
    rw [encodeTags, List.flatMap_cons, List.flatMap_nil, List.append_nil, Tag.length_encode,
      requestTag, hlength]
    decide
  obtain ⟨hanswers, s', hcore, hask⟩ := askProperty_spec hmeans hpa haligned s _ hfits
  rw [askPropertyTag, if_neg (not_not.2 hreq), if_neg (not_not.2 hbufsize), ← requestValue, htag]
  dsimp only
  rw [hask, ok_bind, askTag]
  have hvalueLength : (requestTag id buf reqsize hid hreq).value.length = propertyTagValbufsize :=
    hlength
  generalize requestTag id buf reqsize hid hreq = t at hanswers hcore hvalueLength
  cases hex : exchange s.core [t] with
  | mk core answer =>
      rw [hex] at hanswers hcore
      cases answer with
      | none =>
          refine ⟨by simp, s', hcore, ?_⟩
          rw [rowReply]
          dsimp only
          rw [if_pos (by decide)]
          rfl
      | some tags' =>
          obtain ⟨t', tags'', hanswer, hnil, rfl⟩ := List.forall₂_cons_left_iff.1 (hanswers tags' rfl)
          obtain rfl := List.forall₂_nil_left_iff.1 hnil
          refine ⟨?_, s', hcore, ?_⟩
          · intro t'' ht''
            dsimp only at ht''
            split at ht''
            · obtain rfl := Option.some.inj ht''
              exact hanswer.2.trans hvalueLength
            · cases ht''
          have hone : encodeTags [t'] = t'.encode := by
            rw [encodeTags, List.flatMap_cons, List.flatMap_nil, List.append_nil]
          have hcode : wordOf (t'.encode.drop 8) = t'.code := by
            rw [Tag.encode, drop_bytesOf_append, drop_bytesOf_append, List.drop_zero,
              wordOf_bytesOf_append]
          have hvalue : t'.encode.drop 12 = t'.value := by
            rw [Tag.encode, drop_bytesOf_append, drop_bytesOf_append, drop_bytesOf_append,
              List.drop_zero]
          rw [rowReply]
          dsimp only
          rw [if_neg (by decide), hone, hcode, hvalue]
          cases hmsb : t'.code.msb with
          | false => rfl
          | true => rfl

/-- The question does not depend on what is in the caller's buffer. -/
theorem requestTag_nothing (id : BitVec 32) (buf : Bytes) (hid : id ≠ 0) :
    requestTag id buf 0 hid (Nat.zero_le _) = question id hid := by
  ext1
  · rfl
  · rfl
  · simp [question, requestTag, requestValue]

/-- **A question is asked and answered**: the buffer is filled with what is in front of the answer. -/
theorem askQuestion_spec (hmeans : vc.Means exchange) (hpa : premapAddr addr = pa)
    (haligned : pa &&& 0xF = 0) (s : PropertyState σ) {id : BitVec 32} (hid : id ≠ 0) (buf : Bytes)
    {bufsize : ℕ} (hbuf : buf.length = bufsize) (hbufsize : bufsize ≤ propertyTagValbufsize) :
    ∃ s', s'.core = (askTag exchange s.core (question id hid)).1 ∧
      match (askTag exchange s.core (question id hid)).2 with
      | some t => bufsize ≤ t.value.length ∧ ∃ size,
          askPropertyTag vc pa addr s id buf 0 bufsize = .ok ⟨⟨0, t.value.take bufsize, s'⟩, size⟩
      | none => askPropertyTag vc pa addr s id buf 0 bufsize = .ok ⟨⟨-1, buf, s'⟩, none⟩ := by
  obtain ⟨hlength, s', hcore, hask⟩ := askPropertyTag_spec hmeans hpa haligned s hid buf
    (Nat.zero_le _) hbufsize
  rw [requestTag_nothing] at hlength hcore hask
  refine ⟨s', hcore, ?_⟩
  rw [hask]
  cases hanswer : (askTag exchange s.core (question id hid)).2 with
  | none => rfl
  | some t =>
      have hlong : bufsize ≤ t.value.length := by
        rw [hlength t hanswer]
        exact hbufsize
      have hover : splice buf 0 (t.value.take bufsize) = t.value.take bufsize :=
        splice_all (by rw [List.length_take, hbuf, Nat.min_eq_left hlong])
      refine ⟨hlong, some (t.code &&& 0x7FFFFFFF), ?_⟩
      rw [tagReply, hover]

/-- A VideoCore with a table answers a tag. -/
theorem askTag_table (values : BitVec 32 → Bytes) (s : Unit) (t : Tag) :
    askTag (tableExchange values) s t = (s, some (answerTag values t)) := by
  have hmsb : (answerTag values t).code.msb = true := by
    rw [answerTag, BitVec.msb_or]
    rfl
  rw [askTag, tableExchange, List.map_cons, List.map_nil]
  dsimp only
  rw [if_pos hmsb]

/-- The answer of a VideoCore with a table to a question. -/
theorem answerTag_question (values : BitVec 32 → Bytes) {id : BitVec 32} (hid : id ≠ 0)
    (h : (values id).length ≤ propertyTagValbufsize) :
    ∃ rest, (answerTag values (question id hid)).value = values id ++ rest := by
  have hlength : (question id hid).value.length = propertyTagValbufsize :=
    length_requestValue [] (Nat.zero_le _)
  exact ⟨_, overwrite_zero (by rw [hlength]; exact h)⟩

end OneTag

/-! ### One message after another -/

/-- A call of `ask_property_tag` that keeps its assertions, for a tag. -/
structure TagCall where
  id : BitVec 32
  buf : Bytes
  reqsize : ℕ
  bufsize : ℕ
  id_ne : id ≠ 0
  reqsize_le : reqsize ≤ propertyTagValbufsize
  bufsize_le : bufsize ≤ propertyTagValbufsize

/-- The tag that is sent. -/
def TagCall.tag (c : TagCall) : Tag := requestTag c.id c.buf c.reqsize c.id_ne c.reqsize_le

/-- What a caller gets: the result, what is in its buffer, and `*ressize`. -/
abbrev TagResult := ℤ × Bytes × Option (BitVec 32)

/-- What a caller gets of an answer. -/
def TagCall.result (c : TagCall) : Option Tag → TagResult
  | some t => (0, splice c.buf 0 (t.value.take c.bufsize), some (t.code &&& 0x7FFFFFFF))
  | none => (-1, c.buf, none)

/-- The kernel makes some calls, whatever they return. -/
def askCalls {σ : Type} (vc : VideoCore σ) (pa addr : BitVec 32) :
    PropertyState σ → List TagCall → Except MailFault (List TagResult)
  | _, [] => .ok []
  | s, c :: calls => do
      let reply ← askPropertyTag vc pa addr s c.id c.buf c.reqsize c.bufsize
      let results ← askCalls vc pa addr reply.state calls
      return (reply.ret, reply.buf, reply.ressize) :: results

/-- The results of the calls, by what the VideoCore means. -/
def callResults {σ : Type} (exchange : σ → List Tag → σ × Option (List Tag)) :
    σ → List TagCall → List TagResult
  | _, [] => []
  | s, c :: calls =>
      c.result (askTag exchange s c.tag).2 :: callResults exchange (askTag exchange s c.tag).1 calls

/-- **Every call gets its own answer**: whatever earlier messages have left in the buffer that all
messages share, a call returns what the VideoCore means. -/
theorem askCalls_answers {σ : Type} {vc : VideoCore σ}
    {exchange : σ → List Tag → σ × Option (List Tag)} {pa addr : BitVec 32}
    (hmeans : vc.Means exchange) (hpa : premapAddr addr = pa) (haligned : pa &&& 0xF = 0)
    (calls : List TagCall) (s : PropertyState σ) :
    askCalls vc pa addr s calls = .ok (callResults exchange s.core calls) := by
  induction calls generalizing s with
  | nil => rfl
  | cons c calls ih =>
      obtain ⟨-, s', hcore, hask⟩ := askPropertyTag_spec hmeans hpa haligned s c.id_ne c.buf
        c.reqsize_le c.bufsize_le
      rw [askCalls, hask, ok_bind, callResults, TagCall.tag, ← hcore]
      cases (askTag exchange s.core (requestTag c.id c.buf c.reqsize c.id_ne c.reqsize_le)).2 with
      | none =>
          rw [tagReply]
          dsimp only
          rw [ih]
          rfl
      | some t =>
          rw [tagReply]
          dsimp only
          rw [ih]
          rfl

/-- The pitch is asked for twice. -/
theorem askCalls_answers_twice :
    askCalls (VideoCore.ofExchange (tableExchange fun _ => bytesOf 4320) (fun _ => 3) fun _ => 5)
      0x10000 0x80010000 ⟨(), List.replicate propertyBufsize 0, List.length_replicate⟩
      [⟨0x00040008, bytesOf 0, 0, 4, by decide, by decide, by decide⟩,
        ⟨0x00040008, bytesOf 7, 0, 4, by decide, by decide, by decide⟩] =
    .ok [(0, bytesOf 4320, some 4), (0, bytesOf 4320, some 4)] := by
  obtain ⟨rest, hvalue⟩ := answerTag_question (fun _ => bytesOf 4320)
    (show (0x00040008 : BitVec 32) ≠ 0 by decide) (by decide)
  refine (askCalls_answers (VideoCore.ofExchange_means (tableExchange_answers _) _ _) (by decide)
    (by decide) _ _).trans ?_
  rw [callResults, callResults, callResults, askTag_table, askTag_table, TagCall.tag, TagCall.tag,
    requestTag_nothing, requestTag_nothing, TagCall.result, TagCall.result]
  dsimp only
  rw [hvalue, List.take_left' (length_bytesOf 4320)]
  rfl

/-! ### The frame buffer -/

/-- A tag with a word for its value. -/
def wordTag (id code v : BitVec 32) (hid : id ≠ 0) : Tag where
  id := id
  code := code
  value := bytesOf v
  id_ne := hid
  words := ⟨1, rfl⟩
  small := show 4 < 2 ^ 32 by decide

/-- A tag with two words for its value. -/
def pairTag (id code v w : BitVec 32) (hid : id ≠ 0) : Tag where
  id := id
  code := code
  value := bytesOf v ++ bytesOf w
  id_ne := hid
  words := ⟨2, rfl⟩
  small := show 8 < 2 ^ 32 by decide

/-- The four tags of the request of `fbinit`. -/
def fbTags (width height junk : BitVec 32) : List Tag :=
  [pairTag fbSetdisplaysize 8 width height (by decide),
    pairTag fbSetbuffersize 8 width height (by decide),
    wordTag fbSetdepth 4 24 (by decide),
    pairTag fbAllocbuffer 4 (1024 * 1024 * 2) junk (by decide)]

/-- What `fbinit` asks of the answers to the four tags. -/
def Granted (width height : BitVec 32) (disp buf depth frame : Tag) : Prop :=
  disp.value = bytesOf width ++ bytesOf height ∧ buf.value = bytesOf width ++ bytesOf height ∧
    wordOf depth.value = 24 ∧ wordOf frame.value ≠ 0 ∧ wordOf (frame.value.drop 4) ≠ 0

instance (width height : BitVec 32) (disp buf depth frame : Tag) :
    Decidable (Granted width height disp buf depth frame) :=
  inferInstanceAs (Decidable (_ ∧ _))

/-- **The dialogue of `fbinit`**: the size of the display is asked for; that size, a depth of 24 bits
and a frame are set, and have to be granted; and the pitch is asked for. -/
def fbDialogue {σ : Type} (exchange : σ → List Tag → σ × Option (List Tag)) (junk : BitVec 32)
    (s : σ) : σ × Option FbDevice :=
  match askTag exchange s (question fbGetdisplaysize (by decide)) with
  | (s, none) => (s, none)
  | (s, some display) =>
      let width := wordOf display.value
      let height := wordOf (display.value.drop 4)
      match exchange s (fbTags width height junk) with
      | (s, some [disp, buf, depth, frame]) =>
          if Granted width height disp buf depth frame then
            match askTag exchange s (question fbGetpitch (by decide)) with
            | (s, none) => (s, none)
            | (s, some pitch) => (s, some ⟨wordOf frame.value - vcPoffsetNol2cache,
                ⟨width.toNat, height.toNat, (wordOf pitch.value).toNat⟩⟩)
          else (s, none)
      | (s, _) => (s, none)

section FrameBuffer

variable {σ : Type} {vc : VideoCore σ} {exchange : σ → List Tag → σ × Option (List Tag)}
  {pa addr : BitVec 32}

/-- The bytes of the request. -/
theorem fbRequest_eq (width height junk : BitVec 32) :
    fbRequest (bytesOf width ++ bytesOf height) junk = encodeTags (fbTags width height junk) := by
  rw [fbRequest, propertyHeader_request _ _ (by decide), propertyHeader_request _ _ (by decide),
    propertyHeader_request _ _ (by decide), propertyHeader_request _ _ (by decide)]
  simp [fbTags, encodeTags, Tag.encode, pairTag, wordTag]

/-- The request fits into the buffer. -/
theorem fbTags_fit (width height junk : BitVec 32) :
    (encodeTags (fbTags width height junk)).length ≤ propertyDatasize := by
  have hlength : (encodeTags (fbTags width height junk)).length = 76 := by
    simp [fbTags, encodeTags, Tag.length_encode, pairTag, wordTag]
  rw [hlength]
  decide

/-- The answer to the request has four tags, with values of the same sizes. -/
theorem fbTags_answered {width height junk : BitVec 32} {tags' : List Tag}
    (h : Answers (fbTags width height junk) tags') :
    ∃ disp buf depth frame : Tag, tags' = [disp, buf, depth, frame] ∧ disp.value.length = 8 ∧
      buf.value.length = 8 ∧ depth.value.length = 4 ∧ frame.value.length = 8 := by
  obtain ⟨disp, _, hdisp, h₁, rfl⟩ := List.forall₂_cons_left_iff.1 h
  obtain ⟨buf, _, hbuf, h₂, rfl⟩ := List.forall₂_cons_left_iff.1 h₁
  obtain ⟨depth, _, hdepth, h₃, rfl⟩ := List.forall₂_cons_left_iff.1 h₂
  obtain ⟨frame, _, hframe, h₄, rfl⟩ := List.forall₂_cons_left_iff.1 h₃
  obtain rfl := List.forall₂_nil_left_iff.1 h₄
  exact ⟨disp, buf, depth, frame, rfl, hdisp.2, hbuf.2, hdepth.2, hframe.2⟩

/-- A frame buffer, or none. -/
def fbReply (s : PropertyState σ) : Option FbDevice → FbReply σ
  | some fb => ⟨0, some fb, s⟩
  | none => ⟨-1, none, s⟩

/-- What `fbinit` reads in the answer to its request. -/
theorem answers_read {disp buf depth frame : Tag} (hdisp : disp.value.length = 8)
    (hbuf : buf.value.length = 8) (hdepth : depth.value.length = 4) (hframe : frame.value.length = 8)
    {scrinfo : Bytes} (hscrinfo : scrinfo.length = 8) :
    (memcmp 8 ((encodeTags [disp, buf, depth, frame]).drop 12) scrinfo = 0 ↔
      disp.value = scrinfo) ∧
    (memcmp 8 ((encodeTags [disp, buf, depth, frame]).drop 32) scrinfo = 0 ↔
      buf.value = scrinfo) ∧
    wordOf ((encodeTags [disp, buf, depth, frame]).drop 52) = wordOf depth.value ∧
    wordOf ((encodeTags [disp, buf, depth, frame]).drop 68) = wordOf frame.value ∧
    wordOf ((encodeTags [disp, buf, depth, frame]).drop 72) = wordOf (frame.value.drop 4) := by
  have hrow : encodeTags [disp, buf, depth, frame] =
      disp.encode ++ (buf.encode ++ (depth.encode ++ (frame.encode ++ []))) := by
    simp [encodeTags]
  have hcompare : ∀ (t : Tag) (rest : Bytes), t.value.length = 8 →
      (memcmp 8 (t.value ++ rest) scrinfo = 0 ↔ t.value = scrinfo) := by
    intro t rest ht
    have hvalue : (t.value ++ rest).take 8 = t.value := List.take_left' ht
    have hinfo : scrinfo.take 8 = scrinfo := List.take_of_length_le (Nat.le_of_eq hscrinfo)
    rw [memcmp_eq_zero_iff 8 _ _ (by rw [List.length_append]; omega) (by omega), hvalue, hinfo]
  -- what is behind the first tags
  have hskip : ∀ (t : Tag) (rest : Bytes) (k n : ℕ), t.value.length = k →
      (t.encode ++ rest).drop (n + (12 + k)) = rest.drop n := by
    intro t rest k n hk
    rw [List.drop_append, List.drop_eq_nil_of_le (by rw [t.length_encode]; omega), List.nil_append,
      t.length_encode, hk]
    congr 1
    omega
  rw [hrow]
  refine ⟨hcompare _ _ hdisp, ?_, ?_, ?_, ?_⟩
  · rw [hskip disp _ 8 12 hdisp]
    exact hcompare _ _ hbuf
  · have hword : 4 ≤ depth.value.length := Nat.le_of_eq hdepth.symm
    rw [hskip disp _ 8 32 hdisp, hskip buf _ 8 12 hbuf]
    exact wordOf_append hword _
  · have hword : 4 ≤ frame.value.length := by omega
    rw [hskip disp _ 8 48 hdisp, hskip buf _ 8 28 hbuf, hskip depth _ 4 12 hdepth]
    exact wordOf_append hword _
  · rw [hskip disp _ 8 52 hdisp, hskip buf _ 8 32 hbuf, hskip depth _ 4 16 hdepth, List.append_nil]
    rfl

/-- The frame buffer is granted or not, by the checks of `fbinit`. -/
theorem granted_iff {width height : BitVec 32} {disp buf depth frame : Tag}
    (hdisp : disp.value.length = 8) (hbuf : buf.value.length = 8)
    (hdepth : depth.value.length = 4) (hframe : frame.value.length = 8) {α : Type} (x y : α) :
    (if memcmp 8 ((encodeTags [disp, buf, depth, frame]).drop 12)
        (bytesOf width ++ bytesOf height) ≠ 0 then x
      else if memcmp 8 ((encodeTags [disp, buf, depth, frame]).drop 32)
        (bytesOf width ++ bytesOf height) ≠ 0 then x
      else if wordOf ((encodeTags [disp, buf, depth, frame]).drop 52) ≠ 24 then x
      else if wordOf ((encodeTags [disp, buf, depth, frame]).drop 68) = 0 ∨
        wordOf ((encodeTags [disp, buf, depth, frame]).drop 72) = 0 then x
      else y) = if Granted width height disp buf depth frame then y else x := by
  obtain ⟨hd, hb, hde, hf, hf'⟩ := answers_read hdisp hbuf hdepth hframe
    (show (bytesOf width ++ bytesOf height).length = 8 from rfl)
  rw [hde, hf, hf']
  by_cases hgranted : Granted width height disp buf depth frame
  · rw [if_pos hgranted]
    obtain ⟨gd, gb, gde, gf, gf'⟩ := hgranted
    rw [if_neg (not_not.2 (hd.2 gd)), if_neg (not_not.2 (hb.2 gb)), if_neg (not_not.2 gde),
      if_neg (not_or.2 ⟨gf, gf'⟩)]
  · rw [if_neg hgranted]
    -- one of the five checks fails
    split_ifs with h₁ h₂ h₃ h₄
    · rfl
    · rfl
    · rfl
    · rfl
    · exact absurd ⟨hd.1 (not_not.1 h₁), hb.1 (not_not.1 h₂), not_not.1 h₃, not_or.1 h₄⟩ hgranted

/-- **`fbinit` is its dialogue.** -/
theorem fbinit_spec (hmeans : vc.Means exchange) (hpa : premapAddr addr = pa)
    (haligned : pa &&& 0xF = 0) (s : PropertyState σ) (junk : BitVec 32) :
    ∃ s', s'.core = (fbDialogue exchange junk s.core).1 ∧
      fbinit vc pa addr s junk = .ok (fbReply s' (fbDialogue exchange junk s.core).2) := by
  obtain ⟨s₁, hcore₁, hask₁⟩ := askQuestion_spec hmeans hpa haligned s
    (show fbGetdisplaysize ≠ 0 by decide) (bytesOf junk ++ bytesOf junk)
    (show (bytesOf junk ++ bytesOf junk).length = 8 from rfl) (by decide)
  rw [fbinit, fbDialogue]
  rcases hdisplay : askTag exchange s.core (question fbGetdisplaysize (by decide)) with
    ⟨core₁, _ | display⟩
  · rw [hdisplay] at hcore₁ hask₁
    rw [hask₁]
    exact ⟨s₁, hcore₁, rfl⟩
  rw [hdisplay] at hcore₁ hask₁
  obtain ⟨hlong, size, hask₁⟩ := hask₁
  rw [hask₁, ok_bind, take_two_words hlong]
  simp only [lt_irrefl, if_false]
  generalize wordOf display.value = width
  generalize wordOf (display.value.drop 4) = height
  -- the four tags
  obtain ⟨hanswers, s₂, hcore₂, hask₂⟩ := askProperty_spec hmeans hpa haligned s₁
    (fbTags width height junk) (fbTags_fit width height junk)
  rw [hcore₁] at hanswers hcore₂ hask₂
  rw [fbRequest_eq, hask₂, ok_bind]
  dsimp only at hanswers hcore₂ ⊢
  rcases hgrant : exchange core₁ (fbTags width height junk) with ⟨core₂, _ | tags'⟩
  · rw [hgrant] at hcore₂
    exact ⟨s₂, hcore₂, rfl⟩
  rw [hgrant] at hanswers hcore₂
  obtain ⟨disp, buf, depth, frame, rfl, hdisp, hbuf, hdepth, hframe⟩ :=
    fbTags_answered (hanswers tags' rfl)
  obtain ⟨-, -, -, hbase, -⟩ := answers_read hdisp hbuf hdepth hframe
    (show (bytesOf width ++ bytesOf height).length = 8 from rfl)
  rw [rowReply]
  simp only [lt_irrefl, if_false]
  rw [granted_iff hdisp hbuf hdepth hframe, hbase]
  by_cases hgranted : Granted width height disp buf depth frame
  · rw [if_pos hgranted, if_pos hgranted]
    obtain ⟨s₃, hcore₃, hask₃⟩ := askQuestion_spec hmeans hpa haligned s₂
      (show fbGetpitch ≠ 0 by decide) (bytesOf junk) (length_bytesOf junk) (by decide)
    rw [hcore₂] at hcore₃ hask₃
    dsimp only at hcore₃ hask₃ ⊢
    rcases hpitch : askTag exchange core₂ (question fbGetpitch (by decide)) with ⟨core₃, _ | pitch⟩
    · rw [hpitch] at hcore₃ hask₃
      rw [hask₃]
      exact ⟨s₃, hcore₃, rfl⟩
    rw [hpitch] at hcore₃ hask₃
    obtain ⟨hword, size, hask₃⟩ := hask₃
    refine ⟨s₃, hcore₃, ?_⟩
    rw [hask₃, ok_bind, ← bytesOf_wordOf hword, wordOf_bytesOf, wordOf_bytesOf_append,
      ← Nat.zero_add 4, drop_bytesOf_append, List.drop_zero, wordOf_bytesOf]
    rfl
  · rw [if_neg hgranted, if_neg hgranted]
    exact ⟨s₂, hcore₂, rfl⟩

end FrameBuffer

end Aim
