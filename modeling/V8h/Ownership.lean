import V8h.Http
import V8h.Keeps
/-!
# Ownership — which client may touch what

A client that is not closed holds an fd number and one or two buffers, and its fd's entries in the tables of the service
are its own.  `Owned` says so of a whole state; `Acting` says what a program that works for one client, open or closed,
has left alone.  The lemmas are one for each primitive of the machine.
-/
namespace V8h

open Machine

def Client.buffers (c : Client) : List Nat := c.buffer :: c.boundary.toList

/-- Two clients with no fd number and no buffer in common. -/
structure Client.Apart (c c' : Client) : Prop where
  fd      : c.fd ≠ c'.fd
  buffers : ∀ b ∈ c.buffers, b ∉ c'.buffers

instance (c c' : Client) : Decidable (c.Apart c') :=
  decidable_of_iff (c.fd ≠ c'.fd ∧ ∀ b ∈ c.buffers, b ∉ c'.buffers) ⟨fun h => ⟨h.1, h.2⟩, fun h => ⟨h.fd, h.buffers⟩⟩

theorem Client.Apart.symm {c c' : Client} (h : c.Apart c') : c'.Apart c :=
  ⟨h.fd.symm, fun b hb hb' => h.buffers b hb' hb⟩

/-- The client a function belongs to. -/
def Cont.client : Cont → Option Nat
  | .user _ | .accepted => none
  | .header k | .body k | .part k | .partEnd k | .partHeader k | .lastPart k | .flushed k | .ended k => some k

def Callback.client : Callback → Option Nat
  | .readUntil _ _ _ callback => callback.callback.client
  | .writeBuffer _ _ callback => callback.client
  | .clientError k            => some k
  | _                         => none

def Task.client : Task → Option Nat
  | .call callback     => callback.client
  | .invoke callback _ => callback.client
  | .triggerError _    => none
  | .handler k _       => some k

namespace Machine

/-- A client whose `close` has not run. -/
def Live (m : Machine) (k : Nat) (c : Client) : Prop := m.clients k = some c ∧ c.closed = false

/-- A function the tables of the service hold for an fd works on that fd, and on the buffer of its client. -/
def Fits (m : Machine) (fd : Int) : Callback → Prop
  | .empty                      => True
  | .readUntil f b _ callback   =>
    f = fd ∧ ∃ k c, callback.callback.client = some k ∧ m.clients k = some c ∧ c.fd = fd ∧ c.buffer = b
  | .writeBuffer f b callback   =>
    f = fd ∧ ∃ k c, callback.client = some k ∧ m.clients k = some c ∧ c.fd = fd ∧ c.buffer = b
  | .acceptTcp f callback       => f = fd ∧ callback = .accepted
  | _                           => False

/-- What holds of every state, whoever acts. -/
structure Sound (m : Machine) : Prop where
  clients   : ∀ k, m.nextClient ≤ k → m.clients k = none
  buffers   : ∀ k c, m.clients k = some c → ∀ b ∈ c.buffers, 2 ≤ b ∧ b < m.nextBuffer
  pool      : ∀ b ∈ m.pool.buffers, (2 ≤ b ∧ b < m.nextBuffer) ∧ (m.heap b).pushed = true
  nodup     : m.pool.buffers.Nodup
  callbacks : ∀ fd f, m.service.fds fd = some f → m.Fits fd f
  errors    : ∀ fd f, m.service.fdsError fd = some f →
    f = .autoClose fd ∨ ∃ k c, f = .clientError k ∧ m.Live k c ∧ c.fd = fd
  conns     : ∀ fd x, m.kernel.conn fd = some x → x < m.kernel.nextConn
  connInj   : ∀ fd fd' x, m.kernel.conn fd = some x → m.kernel.conn fd' = some x → fd = fd'
  delim     : ∃ b, (m.heap headerDelim).native = some b ∧ toUint b.size ≠ 0
  reserved  : 2 ≤ m.nextBuffer
  plain     : ∀ b, (m.heap b).temporary = false

/-- What a client that is not closed holds. -/
structure Held (m : Machine) (k : Nat) (c : Client) : Prop where
  unpooled : ∀ b ∈ c.buffers, b ∉ m.pool.buffers
  isOpen   : (m.kernel.conn c.fd).isSome
  error    : m.service.fdsError c.fd = some (.clientError k)

/-- The function registered for a client's fd is its own. -/
def Heard (m : Machine) (k : Nat) (c : Client) : Prop :=
  ∀ f, m.service.fds c.fd = some f → f = .empty ∨ f.client = some k

/-- **The ownership invariant.** -/
structure Owned (m : Machine) : Prop where
  sound : m.Sound
  apart : ∀ j k c c', j ≠ k → m.Live j c → m.Live k c' → c.Apart c'
  held  : ∀ k c, m.Live k c → m.Held k c
  heard : ∀ k c, m.Live k c → m.Heard k c

/-- The buffers, the connection and the table entries of a client are as they were. -/
structure Untouched (m₀ m : Machine) (c : Client) : Prop where
  heap     : ∀ b ∈ c.buffers, m.heap b = m₀.heap b
  fds      : m.service.fds c.fd = m₀.service.fds c.fd
  fdsError : m.service.fdsError c.fd = m₀.service.fdsError c.fd
  conn     : m.kernel.conn c.fd = m₀.kernel.conn c.fd
  sent     : ∀ x, m₀.kernel.conn c.fd = some x → m.kernel.sent x = m₀.kernel.sent x

/-- A program came from `m₀` to `m` and left the clients other than `k` alone. -/
structure Beside (m₀ : Machine) (k : Nat) (m : Machine) : Prop where
  sound     : m.Sound
  others    : ∀ j, j ≠ k → m.clients j = m₀.clients j
  unpooled  : ∀ j c, j ≠ k → m₀.Live j c → ∀ b ∈ c.buffers, b ∉ m.pool.buffers
  untouched : ∀ j c, j ≠ k → m₀.Live j c → m₀.Untouched m c

/-- The same of a program that works for client `k`, with this fd and buffer. -/
structure Acting (m₀ : Machine) (k : Nat) (fd : Int) (buffer : Nat) (m : Machine) : Prop extends Beside m₀ k m where
  self  : ∃ c, m.clients k = some c ∧ c.fd = fd ∧ c.buffer = buffer
  apart : ∀ c, m.clients k = some c → ∀ j c', j ≠ k → m₀.Live j c' → c.Apart c'

/-- The same, and the client's own holdings are in order. -/
structure Serving (m₀ : Machine) (k : Nat) (fd : Int) (buffer : Nat) (m : Machine) : Prop
    extends Acting m₀ k fd buffer m where
  held  : ∀ c, m.Live k c → m.Held k c
  heard : ∀ c, m.Live k c → m.Heard k c

theorem Untouched.refl (m : Machine) (c : Client) : m.Untouched m c :=
  ⟨fun _ _ => rfl, rfl, rfl, rfl, fun _ _ => rfl⟩

theorem Owned.beside {m : Machine} (h : m.Owned) (k : Nat) : m.Beside k m :=
  ⟨h.sound, fun _ _ => rfl, fun j c' _ hlive => (h.held j c' hlive).unpooled, fun _ c' _ _ => Untouched.refl m c'⟩

/-- A client may act when it is not closed, or has nothing in common with one that is not. -/
theorem Owned.serving {m : Machine} (h : m.Owned) {k : Nat} {c : Client} (hk : m.clients k = some c)
    (hc : c.closed = true → ∀ j c', m.Live j c' → c.Apart c') : m.Serving k c.fd c.buffer m := by
  refine ⟨⟨h.beside k, ⟨c, hk, rfl, rfl⟩, ?_⟩, ?_, ?_⟩
  · intro c₁ hk₁ j c' hj hlive
    rw [hk] at hk₁
    cases hk₁
    cases hcl : c.closed with
    | true => exact hc hcl j c' hlive
    | false => exact h.apart k j c c' hj.symm ⟨hk, hcl⟩ hlive
  · exact fun c' hlive => h.held k c' hlive
  · exact fun c' hlive => h.heard k c' hlive

/-- **After it acted, every client holds what it should**, and the others hold what they held. -/
theorem Serving.owned {m₀ m : Machine} {k : Nat} {fd : Int} {buffer : Nat} (h₀ : m₀.Owned)
    (h : m₀.Serving k fd buffer m) : m.Owned := by
  have hlive : ∀ j c, j ≠ k → m.Live j c → m₀.Live j c := fun j c hj hl => by
    rwa [Live, ← h.others j hj]
  refine ⟨h.sound, ?_, ?_, ?_⟩
  · intro i j c c' hij hi hj
    by_cases hik : i = k
    · subst hik
      exact h.apart c hi.1 j c' hij.symm (hlive j c' hij.symm hj)
    · by_cases hjk : j = k
      · subst hjk
        exact (h.apart c' hj.1 i c hij (hlive i c hij hi)).symm
      · exact h₀.apart i j c c' hij (hlive i c hik hi) (hlive j c' hjk hj)
  · intro j c hj
    by_cases hjk : j = k
    · subst hjk
      exact h.held c hj
    · have hu := h.untouched j c hjk (hlive j c hjk hj)
      have hh := h₀.held j c (hlive j c hjk hj)
      exact ⟨h.unpooled j c hjk (hlive j c hjk hj), hu.conn ▸ hh.isOpen, hu.fdsError ▸ hh.error⟩
  · intro j c hj
    by_cases hjk : j = k
    · subst hjk
      exact h.heard c hj
    · have hu := h.untouched j c hjk (hlive j c hjk hj)
      have hh := h₀.heard j c (hlive j c hjk hj)
      rw [Heard, hu.fds]
      exact hh

/-! ## What leaves the holdings alone -/

theorem fits_congr {m m' : Machine} (h : m'.clients = m.clients) (fd : Int) (f : Callback) :
    m'.Fits fd f ↔ m.Fits fd f := by
  cases f <;> simp only [Fits, h]

theorem Same.sound {m m' : Machine} (h : Same m m') (hs : m.Sound) : m'.Sound := by
  refine ⟨?_, ?_, ?_, ?_, ?_, ?_, ?_, ?_, ?_, ?_, ?_⟩
  · rw [h.nextClient, h.clients]; exact hs.clients
  · rw [h.nextBuffer, h.clients]; exact hs.buffers
  · rw [h.nextBuffer, h.pool, h.heap]; exact hs.pool
  · rw [h.pool]; exact hs.nodup
  · rw [h.service]; exact fun fd f hf => (fits_congr h.clients fd f).2 (hs.callbacks fd f hf)
  · rw [h.service]; simpa only [Live, h.clients] using hs.errors
  · rw [h.conn, h.nextConn]; exact hs.conns
  · rw [h.conn]; exact hs.connInj
  · rw [h.heap]; exact hs.delim
  · rw [h.nextBuffer]; exact hs.reserved
  · rw [h.heap]; exact hs.plain

theorem Same.untouched {m₀ m m' : Machine} (h : Same m m') {c : Client} (hu : m₀.Untouched m c) :
    m₀.Untouched m' c := by
  refine ⟨?_, ?_, ?_, ?_, ?_⟩
  · rw [h.heap]; exact hu.heap
  · rw [h.service]; exact hu.fds
  · rw [h.service]; exact hu.fdsError
  · rw [h.conn]; exact hu.conn
  · rw [h.sent]; exact hu.sent

theorem Same.held {m m' : Machine} (h : Same m m') {k : Nat} {c : Client} (hh : m.Held k c) : m'.Held k c :=
  ⟨h.pool ▸ hh.unpooled, h.conn ▸ hh.isOpen, h.service ▸ hh.error⟩

theorem Same.heard {m m' : Machine} (h : Same m m') {k : Nat} {c : Client} (hh : m.Heard k c) : m'.Heard k c := by
  rw [Heard, h.service]
  exact hh

variable {m₀ m m' : Machine} {k : Nat} {fd : Int} {buffer : Nat}

theorem Acting.same (ha : m₀.Acting k fd buffer m) (h : Same m m') : m₀.Acting k fd buffer m' := by
  refine ⟨⟨h.sound ha.sound, ?_, ?_, fun j c hj hl => h.untouched (ha.untouched j c hj hl)⟩, ?_, ?_⟩
  · rw [h.clients]; exact ha.others
  · rw [h.pool]; exact ha.unpooled
  · rw [h.clients]; exact ha.self
  · rw [h.clients]; exact ha.apart

theorem Serving.same (hs : m₀.Serving k fd buffer m) (h : Same m m') : m₀.Serving k fd buffer m' := by
  refine ⟨hs.toActing.same h, fun c hl => h.held (hs.held c ?_), fun c hl => h.heard (hs.heard c ?_)⟩ <;>
    rwa [Live, h.clients] at hl

/-! ## The primitives -/

/-- A buffer the program may use: no other client that is not closed holds it, and the scripts made it
after their own. -/
structure Mine (m₀ : Machine) (k : Nat) (b : Nat) (m : Machine) : Prop where
  range : 2 ≤ b ∧ b < m.nextBuffer
  apart : ∀ j c, j ≠ k → m₀.Live j c → b ∉ c.buffers

theorem Acting.mine (h : m₀.Acting k fd buffer m) {c : Client} (hc : m.clients k = some c) {b : Nat}
    (hb : b ∈ c.buffers) :
    Mine m₀ k b m :=
  ⟨h.sound.buffers k c hc b hb, fun j c' hj hl => (h.apart c hc j c' hj hl).buffers b hb⟩

theorem Acting.mine_buffer (h : m₀.Acting k fd buffer m) : Mine m₀ k buffer m := by
  obtain ⟨c, hc, -, rfl⟩ := h.self
  exact h.mine hc (List.mem_cons_self ..)

theorem Acting.setHeap (h : m₀.Acting k fd buffer m) {b : Nat} (hb : Mine m₀ k b m) {o : BufferObj}
    (ho : b ∈ m.pool.buffers → o.pushed = true) (htemp : o.temporary = false) :
    m₀.Acting k fd buffer { m with heap := Function.update m.heap b o } := by
  have hs := h.sound
  refine ⟨⟨⟨hs.clients, hs.buffers, ?_, hs.nodup, hs.callbacks, hs.errors, hs.conns, hs.connInj, ?_, hs.reserved, ?_⟩,
    h.others, h.unpooled, ?_⟩, h.self, h.apart⟩
  · intro b' hb'
    refine ⟨(hs.pool b' hb').1, ?_⟩
    by_cases hbb : b' = b
    · subst hbb
      simpa using ho hb'
    · simpa [Function.update_of_ne hbb] using (hs.pool b' hb').2
  · obtain ⟨d, hd, hd0⟩ := hs.delim
    refine ⟨d, ?_, hd0⟩
    have hne : headerDelim ≠ b := fun he => by
      have := hb.range.1
      rw [← he, headerDelim] at this
      omega
    simpa [Function.update_of_ne hne] using hd
  · intro b'
    by_cases hbb : b' = b
    · subst hbb
      simpa using htemp
    · simpa [Function.update_of_ne hbb] using hs.plain b'
  · intro j c hj hl
    have hu := h.untouched j c hj hl
    refine ⟨fun b' hb' => ?_, hu.fds, hu.fdsError, hu.conn, hu.sent⟩
    have hne : b' ≠ b := fun he => hb.apart j c hj hl (he ▸ hb')
    simpa [Function.update_of_ne hne] using hu.heap b' hb'

theorem Serving.setHeap (h : m₀.Serving k fd buffer m) {b : Nat} (hb : Mine m₀ k b m) {o : BufferObj}
    (ho : b ∈ m.pool.buffers → o.pushed = true) (htemp : o.temporary = false) :
    m₀.Serving k fd buffer { m with heap := Function.update m.heap b o } :=
  ⟨h.toActing.setHeap hb ho htemp, fun c hl =>
  ⟨(h.held c hl).unpooled, (h.held c hl).isOpen, (h.held c hl).error⟩, h.heard⟩

theorem Acting.setFds (h : m₀.Acting k fd buffer m) {s : Service Callback} {f : Callback} (hf : m.Fits fd f)
    (hfds : s.fds = Function.update m.service.fds fd (some f)) (herr : s.fdsError = m.service.fdsError) :
    m₀.Acting k fd buffer { m with service := s } := by
  have hs := h.sound
  have hfits : ∀ fd f, m.Fits fd f → Fits { m with service := s } fd f := fun fd f => (fits_congr rfl fd f).2
  refine ⟨⟨⟨hs.clients, hs.buffers, hs.pool, hs.nodup, ?_, ?_, hs.conns, hs.connInj, hs.delim, hs.reserved, hs.plain⟩,
    h.others, h.unpooled, ?_⟩, h.self, h.apart⟩
  · intro fd' f' hf'
    simp only [hfds, Function.update_apply] at hf'
    split at hf'
    · rename_i he
      cases hf'
      exact he ▸ hfits fd f hf
    · exact hfits fd' f' (hs.callbacks fd' f' hf')
  · simp only [herr]
    exact hs.errors
  · intro j c hj hl
    have hu := h.untouched j c hj hl
    refine ⟨hu.heap, ?_, ?_, hu.conn, hu.sent⟩
    · obtain ⟨ck, hck, hfd, -⟩ := h.self
      have hne : c.fd ≠ fd := fun he => (h.apart ck hck j c hj hl).fd (hfd.trans he.symm)
      simpa only [hfds, Function.update_of_ne hne] using hu.fds
    · simpa only [herr] using hu.fdsError

theorem Acting.serving_setFds (h : m₀.Acting k fd buffer m) (hheld : ∀ c, m.Live k c → m.Held k c)
    {s : Service Callback}
    {f : Callback} (hf : m.Fits fd f) (hk : f = .empty ∨ f.client = some k)
    (hfds : s.fds = Function.update m.service.fds fd (some f)) (herr : s.fdsError = m.service.fdsError) :
    m₀.Serving k fd buffer { m with service := s } := by
  refine ⟨h.setFds hf hfds herr, fun c hl => ?_, fun c hl f' hf' => ?_⟩
  · have hh := hheld c hl
    exact ⟨hh.unpooled, hh.isOpen, by simpa only [herr] using hh.error⟩
  · obtain ⟨ck, hck, hfd, -⟩ := h.self
    have hcc : c = ck := Option.some.inj (hl.1.symm.trans hck)
    simp only [hfds, hcc, hfd, Function.update_self] at hf'
    cases hf'
    exact hk

theorem Acting.setSent (h : m₀.Acting k fd buffer m) {x : Nat} (hx : m.kernel.conn fd = some x) (bytes : List UInt8) :
    m₀.Acting k fd buffer { m with kernel := { m.kernel with sent := Function.update m.kernel.sent x bytes } } := by
  have hs := h.sound
  refine ⟨⟨⟨hs.clients, hs.buffers, hs.pool, hs.nodup, hs.callbacks, hs.errors, hs.conns, hs.connInj, hs.delim,
    hs.reserved, hs.plain⟩, h.others, h.unpooled, ?_⟩, h.self, h.apart⟩
  intro j c hj hl
  have hu := h.untouched j c hj hl
  refine ⟨hu.heap, hu.fds, hu.fdsError, hu.conn, fun y hy => ?_⟩
  obtain ⟨ck, hck, hfd, -⟩ := h.self
  have hne : y ≠ x := by
    rintro rfl
    refine (h.apart ck hck j c hj hl).fd ?_
    rw [hfd]
    exact hs.connInj fd c.fd y hx (hu.conn.trans hy)
  simpa [Function.update_of_ne hne] using hu.sent y hy

theorem Serving.setSent (h : m₀.Serving k fd buffer m) {x : Nat} (hx : m.kernel.conn fd = some x) (bytes : List UInt8) :
    m₀.Serving k fd buffer { m with kernel := { m.kernel with sent := Function.update m.kernel.sent x bytes } } :=
  ⟨h.toActing.setSent hx bytes, fun c hl =>
  ⟨(h.held c hl).unpooled, (h.held c hl).isOpen, (h.held c hl).error⟩, h.heard⟩

/-- A buffer taken from the pool, or made. -/
theorem Beside.takePooled (h : m₀.Beside k m) {b : Nat} {bs : List Nat} (hb : m.pool.buffers = b :: bs)
    {o : BufferObj} (htemp : o.temporary = false) :
    m₀.Beside k { m with heap := Function.update m.heap b o, pool := { m.pool with buffers := bs } } ∧
      Mine m₀ k b m ∧ b ∉ bs := by
  have hs := h.sound
  have hnodup := hs.nodup
  rw [hb, List.nodup_cons] at hnodup
  have hmem : ∀ b' ∈ bs, b' ∈ m.pool.buffers := fun b' hb' => hb ▸ List.mem_cons_of_mem b hb'
  have hmine : Mine m₀ k b m := by
    have hpool : b ∈ m.pool.buffers := hb ▸ List.mem_cons_self ..
    exact ⟨(hs.pool b hpool).1, fun j c hj hl hbc => h.unpooled j c hj hl b hbc hpool⟩
  refine ⟨⟨⟨hs.clients, hs.buffers, ?_, hnodup.2, hs.callbacks, hs.errors, hs.conns, hs.connInj, ?_, hs.reserved, ?_⟩,
    h.others, ?_, ?_⟩, hmine, hnodup.1⟩
  · intro b' hb'
    refine ⟨(hs.pool b' (hmem b' hb')).1, ?_⟩
    have hne : b' ≠ b := fun he => hnodup.1 (he ▸ hb')
    simpa [Function.update_of_ne hne] using (hs.pool b' (hmem b' hb')).2
  · obtain ⟨d, hd, hd0⟩ := hs.delim
    refine ⟨d, ?_, hd0⟩
    have hne : headerDelim ≠ b := fun he => by
      have := hmine.range.1
      rw [← he, headerDelim] at this
      omega
    simpa [Function.update_of_ne hne] using hd
  · intro b'
    by_cases hbb : b' = b
    · subst hbb
      simpa using htemp
    · simpa [Function.update_of_ne hbb] using hs.plain b'
  · exact fun j c hj hl b' hb' hpool => h.unpooled j c hj hl b' hb' (hmem b' hpool)
  · intro j c hj hl
    have hu := h.untouched j c hj hl
    refine ⟨fun b' hb' => ?_, hu.fds, hu.fdsError, hu.conn, hu.sent⟩
    have hne : b' ≠ b := fun he => hmine.apart j c hj hl (he ▸ hb')
    simpa [Function.update_of_ne hne] using hu.heap b' hb'

theorem Serving.takePooled (h : m₀.Serving k fd buffer m) {b : Nat} {bs : List Nat} (hb : m.pool.buffers = b :: bs)
    {o : BufferObj} (htemp : o.temporary = false) :
    m₀.Serving k fd buffer { m with heap := Function.update m.heap b o, pool := { m.pool with buffers := bs } } ∧
      Mine m₀ k b m ∧ b ∉ bs := by
  obtain ⟨h1, h2, h3⟩ := h.toBeside.takePooled hb htemp
  refine ⟨⟨⟨h1, h.self, h.apart⟩, fun c hl => ?_, h.heard⟩, h2, h3⟩
  have hh := h.held c hl
  exact ⟨fun b' hb' hpool => hh.unpooled b' hb' (hb ▸ List.mem_cons_of_mem b hpool), hh.isOpen, hh.error⟩

theorem Beside.makeBuffer (h : m₀.Beside k m) {o : BufferObj} (htemp : o.temporary = false) :
    m₀.Beside k
      { m with heap := Function.update m.heap m.nextBuffer o, nextBuffer := m.nextBuffer + 1 } ∧
    Mine m₀ k m.nextBuffer { m with heap := Function.update m.heap m.nextBuffer o, nextBuffer := m.nextBuffer + 1 } ∧
    m.nextBuffer ∉ m.pool.buffers := by
  have hs := h.sound
  have hother : ∀ j c, j ≠ k → m₀.Live j c → m.nextBuffer ∉ c.buffers := by
    intro j c hj hl hb
    have := (hs.buffers j c ((h.others j hj).trans hl.1) _ hb).2
    omega
  have hpool : m.nextBuffer ∉ m.pool.buffers := fun hb => by
    have := (hs.pool _ hb).1.2
    omega
  refine ⟨⟨⟨hs.clients, ?_, ?_, hs.nodup, hs.callbacks, hs.errors, hs.conns, hs.connInj, ?_, ?_, ?_⟩,
    h.others, h.unpooled, ?_⟩, ⟨⟨hs.reserved, Nat.lt_succ_self _⟩, hother⟩, hpool⟩
  · exact fun j c hj b hb => ⟨(hs.buffers j c hj b hb).1, Nat.lt_succ_of_lt (hs.buffers j c hj b hb).2⟩
  · intro b hb
    have hne : b ≠ m.nextBuffer := fun he => hpool (he ▸ hb)
    refine ⟨⟨(hs.pool b hb).1.1, Nat.lt_succ_of_lt (hs.pool b hb).1.2⟩, ?_⟩
    simpa [Function.update_of_ne hne] using (hs.pool b hb).2
  · obtain ⟨d, hd, hd0⟩ := hs.delim
    refine ⟨d, ?_, hd0⟩
    have hne : headerDelim ≠ m.nextBuffer := fun he => by
      have := hs.reserved
      rw [← he, headerDelim] at this
      omega
    simpa [Function.update_of_ne hne] using hd
  · exact Nat.le_succ_of_le hs.reserved
  · intro b
    by_cases hb : b = m.nextBuffer
    · subst hb
      simpa using htemp
    · simpa [Function.update_of_ne hb] using hs.plain b
  · intro j c hj hl
    have hu := h.untouched j c hj hl
    refine ⟨fun b hb => ?_, hu.fds, hu.fdsError, hu.conn, hu.sent⟩
    have hne : b ≠ m.nextBuffer := fun he => hother j c hj hl (he ▸ hb)
    simpa [Function.update_of_ne hne] using hu.heap b hb

theorem Serving.makeBuffer (h : m₀.Serving k fd buffer m) {o : BufferObj} (htemp : o.temporary = false) :
    m₀.Serving k fd buffer
      { m with heap := Function.update m.heap m.nextBuffer o, nextBuffer := m.nextBuffer + 1 } ∧
    Mine m₀ k m.nextBuffer { m with heap := Function.update m.heap m.nextBuffer o, nextBuffer := m.nextBuffer + 1 } ∧
    m.nextBuffer ∉ m.pool.buffers := by
  obtain ⟨h1, h2, h3⟩ := h.toBeside.makeBuffer htemp
  exact ⟨⟨⟨h1, h.self, h.apart⟩, fun c hl =>
    ⟨(h.held c hl).unpooled, (h.held c hl).isOpen, (h.held c hl).error⟩, h.heard⟩,
    h2, h3⟩

theorem Acting.givePooled (h : m₀.Acting k fd buffer m) {b : Nat} (hb : Mine m₀ k b m)
    (hp : (m.heap b).pushed = false) :
    m₀.Acting k fd buffer { m with
      heap := Function.update m.heap b { m.heap b with pushed := true }
      pool := { m.pool with buffers := b :: m.pool.buffers } } := by
  have hnot : b ∉ m.pool.buffers := fun hmem => by
    rw [(h.sound.pool b hmem).2] at hp
    cases hp
  have ha := h.setHeap hb (o := { m.heap b with pushed := true }) (fun _ => rfl) (h.sound.plain b)
  have hs := ha.sound
  refine ⟨⟨⟨hs.clients, hs.buffers, ?_, List.nodup_cons.2 ⟨hnot, hs.nodup⟩, hs.callbacks, hs.errors, hs.conns,
    hs.connInj,
    hs.delim, hs.reserved, hs.plain⟩, ha.others, ?_, fun j c hj hl => ?_⟩, ha.self, ha.apart⟩
  · intro b' hb'
    rcases List.mem_cons.1 hb' with rfl | hb'
    · exact ⟨hb.range, by simp⟩
    · exact hs.pool b' hb'
  · intro j c hj hl b' hb' hmem
    rcases List.mem_cons.1 hmem with rfl | hmem
    · exact hb.apart j c hj hl hb'
    · exact ha.unpooled j c hj hl b' hb' hmem
  · have hu := ha.untouched j c hj hl
    exact ⟨hu.heap, hu.fds, hu.fdsError, hu.conn, hu.sent⟩

/-- A change of the client's own fields, its boundary becoming at most a buffer it may use. -/
theorem Acting.setClient (h : m₀.Acting k fd buffer m) {c : Client} (c' : Client) (hc : m.clients k = some c)
    (hfd : c'.fd = c.fd)
    (hbuf : c'.buffer = c.buffer) (hclosed : c'.closed = c.closed ∨ m.service.fdsError fd = none)
    (hb : ∀ b ∈ c'.boundary, Mine m₀ k b m) :
    m₀.Acting k fd buffer { m with clients := Function.update m.clients k (some c') } := by
  have hs := h.sound
  have hmine : ∀ b ∈ c'.buffers, Mine m₀ k b m := by
    intro b hmem
    rcases List.mem_cons.1 hmem with rfl | hmem
    · rw [hbuf]
      exact h.mine hc (List.mem_cons_self ..)
    · exact hb b (by simpa using hmem)
  have hupd : ∀ j c₁, Function.update m.clients k (some c') j = some c₁ →
      j = k ∧ c₁ = c' ∨ j ≠ k ∧ m.clients j = some c₁ := by
    intro j c₁ hj
    by_cases hjk : j = k
    · subst hjk
      rw [Function.update_self] at hj
      exact Or.inl ⟨rfl, (Option.some.inj hj).symm⟩
    · rw [Function.update_of_ne hjk] at hj
      exact Or.inr ⟨hjk, hj⟩
  refine ⟨⟨⟨?_, ?_, hs.pool, hs.nodup, ?_, ?_, hs.conns, hs.connInj, hs.delim, hs.reserved, hs.plain⟩, ?_,
    h.unpooled, fun j c hj hl => ?_⟩, ?_, ?_⟩
  · intro j hj
    have hjk : j ≠ k := by
      rintro rfl
      rw [hs.clients j hj] at hc
      cases hc
    simpa [Function.update_of_ne hjk] using hs.clients j hj
  · intro j c₁ hj b hmem
    rcases hupd j c₁ hj with ⟨rfl, rfl⟩ | ⟨-, hj⟩
    · exact (hmine b hmem).range
    · exact hs.buffers j c₁ hj b hmem
  · have hex : ∀ (P : Option Nat) fd' b',
      (∃ k' c₁, P = some k' ∧ m.clients k' = some c₁ ∧ c₁.fd = fd' ∧ c₁.buffer = b') →
        ∃ k' c₁, P = some k' ∧ Function.update m.clients k (some c') k' = some c₁ ∧ c₁.fd = fd' ∧ c₁.buffer = b' := by
      rintro P fd' b' ⟨k', c₁, hP, hk', h1, h2⟩
      by_cases hkk : k' = k
      · subst hkk
        rw [hc] at hk'
        cases hk'
        exact ⟨k', c', hP, Function.update_self .., hfd.trans h1, hbuf.trans h2⟩
      · exact ⟨k', c₁, hP, by rw [Function.update_of_ne hkk, hk'], h1, h2⟩
    intro fd' f hf
    have hfit := hs.callbacks fd' f hf
    cases f with
    | readUntil f' b' cond callback => exact ⟨hfit.1, hex _ _ _ hfit.2⟩
    | writeBuffer f' b' callback => exact ⟨hfit.1, hex _ _ _ hfit.2⟩
    | empty => trivial
    | acceptTcp f' callback => exact hfit
    | user id => exact hfit
    | writeUntil f' b' cond callback => exact hfit
    | connect callback => exact hfit
    | autoClose f' => exact hfit
    | clientError k' => exact hfit
  · intro fd' f hf
    rcases hs.errors fd' f hf with hauto | ⟨k', c₁, rfl, hl, hcfd⟩
    · exact Or.inl hauto
    · refine Or.inr ?_
      by_cases hkk : k' = k
      · subst hkk
        obtain ⟨ck, hck, hkfd, -⟩ := h.self
        obtain rfl : c₁ = c := Option.some.inj (hl.1.symm.trans hc)
        obtain rfl : c₁ = ck := Option.some.inj (hl.1.symm.trans hck)
        rcases hclosed with hclosed | hnone
        · exact ⟨k', c', rfl, ⟨Function.update_self .., hclosed.trans hl.2⟩, hfd.trans hcfd⟩
        · rw [← hcfd, hkfd, hnone] at hf
          cases hf
      · exact ⟨k', c₁, rfl, ⟨by simpa [Function.update_of_ne hkk] using hl.1, hl.2⟩, hcfd⟩
  · intro j hj
    rw [← h.others j hj]
    exact Function.update_of_ne hj ..
  · have hu := h.untouched j c hj hl
    exact ⟨hu.heap, hu.fds, hu.fdsError, hu.conn, hu.sent⟩
  · obtain ⟨c₁, hc₁, h1, h2⟩ := h.self
    have hcc : c₁ = c := Option.some.inj (hc₁.symm.trans hc)
    subst hcc
    exact ⟨c', Function.update_self .., hfd.trans h1, hbuf.trans h2⟩
  · intro c₁ hc₁ j c₂ hj hl
    rcases hupd k c₁ hc₁ with ⟨-, rfl⟩ | ⟨hkk, -⟩
    · refine ⟨?_, fun b hmem => (hmine b hmem).apart j c₂ hj hl⟩
      rw [hfd]
      exact (h.apart c hc j c₂ hj hl).fd
    · exact absurd rfl hkk

theorem Serving.setClient (h : m₀.Serving k fd buffer m) {c c' : Client} (hc : m.clients k = some c)
    (hfd : c'.fd = c.fd)
    (hbuf : c'.buffer = c.buffer) (hclosed : c'.closed = c.closed)
    (hb : c'.boundary = c.boundary ∨ ∀ b ∈ c'.boundary, Mine m₀ k b m ∧ b ∉ m.pool.buffers) :
    m₀.Serving k fd buffer { m with clients := Function.update m.clients k (some c') } := by
  have hmine : ∀ b ∈ c'.boundary, Mine m₀ k b m := by
    intro b hmem
    rcases hb with hb | hb
    · rw [hb] at hmem
      exact h.mine hc (List.mem_cons_of_mem _ (by simpa using hmem))
    · exact (hb b hmem).1
  have hl' : ∀ c₁, Live { m with clients := Function.update m.clients k (some c') } k c₁ → c₁ = c' ∧ m.Live k c := by
    rintro c₁ ⟨hc₁, hcl⟩
    have : c' = c₁ := by simpa using hc₁
    subst this
    exact ⟨rfl, hc, hclosed.symm.trans hcl⟩
  refine ⟨h.toActing.setClient c' hc hfd hbuf (Or.inl hclosed) hmine, fun c₁ hl => ?_, fun c₁ hl => ?_⟩
  · obtain ⟨rfl, hlive⟩ := hl' c₁ hl
    have hh := h.held c hlive
    refine ⟨fun b hmem => ?_, by rw [hfd]; exact hh.isOpen, by rw [hfd]; exact hh.error⟩
    rcases List.mem_cons.1 hmem with rfl | hmem
    · rw [hbuf]
      exact hh.unpooled _ (List.mem_cons_self ..)
    · rcases hb with hb | hb
      · rw [hb] at hmem
        exact hh.unpooled b (List.mem_cons_of_mem _ hmem)
      · exact (hb b (by simpa using hmem)).2
  · obtain ⟨rfl, hlive⟩ := hl' c₁ hl
    rw [Heard, hfd]
    exact h.heard c hlive

theorem Acting.delFd (h : m₀.Acting k fd buffer m) :
    m₀.Acting k fd buffer { m with
      service := (m.service.del fd).1
      kernel := { m.kernel with conn := Function.update m.kernel.conn fd none } } := by
  have hs := h.sound
  have hconn : ∀ fd' x, Function.update m.kernel.conn fd none fd' = some x → m.kernel.conn fd' = some x := by
    intro fd' x hx
    rw [Function.update_apply] at hx
    split at hx
    · cases hx
    · exact hx
  refine ⟨⟨⟨hs.clients, hs.buffers, hs.pool, hs.nodup, ?_, ?_, ?_, ?_, hs.delim, hs.reserved, hs.plain⟩,
    h.others, h.unpooled, fun j c hj hl => ?_⟩, h.self, h.apart⟩
  · intro fd' f hf
    simp only [Service.del_fds, Function.update_apply] at hf
    split at hf
    · cases hf
    · exact (fits_congr rfl fd' f).2 (hs.callbacks fd' f hf)
  · intro fd' f hf
    simp only [Service.del_fdsError, Function.update_apply] at hf
    split at hf
    · cases hf
    · exact hs.errors fd' f hf
  · exact fun fd' x hx => hs.conns fd' x (hconn fd' x hx)
  · exact fun fd₁ fd₂ x h1 h2 => hs.connInj fd₁ fd₂ x (hconn fd₁ x h1) (hconn fd₂ x h2)
  · obtain ⟨ck, hck, hfd, -⟩ := h.self
    have hne : c.fd ≠ fd := fun he => (h.apart ck hck j c hj hl).fd (hfd.trans he.symm)
    have hu := h.untouched j c hj hl
    refine ⟨hu.heap, ?_, ?_, ?_, hu.sent⟩
    · simpa [Function.update_of_ne hne] using hu.fds
    · simpa [Function.update_of_ne hne] using hu.fdsError
    · simpa [Function.update_of_ne hne] using hu.conn

theorem Acting.shut (h : m₀.Acting k fd buffer m) {c : Client} (hc : m.clients k = some c) :
    m₀.Serving k fd buffer { m with
      service := (m.service.del fd).1
      kernel := { m.kernel with conn := Function.update m.kernel.conn fd none }
      clients := Function.update m.clients k (some { c with closed := true }) } := by
  have hd := h.delFd
  have hgone : (m.service.del fd).1.fdsError fd = none := by simp
  have ha := hd.setClient { c with closed := true } hc rfl rfl (Or.inr hgone)
    (fun b hb => hd.mine hc (List.mem_cons_of_mem _ (by simpa using hb)))
  have hdead : ∀ {P : Prop} c₁, Live { m with
      service := (m.service.del fd).1
      kernel := { m.kernel with conn := Function.update m.kernel.conn fd none }
      clients := Function.update m.clients k (some { c with closed := true }) } k c₁ → P := by
    rintro P c₁ ⟨hc₁, hcl⟩
    obtain rfl : { c with closed := true } = c₁ := by simpa using hc₁
    cases hcl
  exact ⟨ha, fun c₁ hl => hdead c₁ hl, fun c₁ hl => hdead c₁ hl⟩

/-! ## Steps on behalf of no client -/

/-- A client just made holds its fd and its buffer, whatever is registered for the fd. -/
theorem Beside.admit (h : m₀.Beside k m) (hk : k = m.nextClient) {b : Nat} (hb : Mine m₀ k b m)
    (hp : b ∉ m.pool.buffers)
    (hopen : (m.kernel.conn fd).isSome) (hfree : ∀ j c, m₀.Live j c → c.fd ≠ fd) (req : Request) :
    let m' := { m with
      service := m.service.error fd (.clientError k)
      clients := Function.update m.clients k (some ⟨fd, b, none, req, false, none, false⟩)
      nextClient := k + 1 }
    m₀.Acting k fd b m' ∧ ∀ c, m'.Live k c → m'.Held k c := by
  intro m'
  have hs := h.sound
  have hnone : m.clients k = none := hs.clients k (hk ▸ Nat.le_refl _)
  have hold : ∀ j c, j ≠ k → (m'.clients j = some c ↔ m.clients j = some c) := fun j c hj => by
    show Function.update m.clients k _ j = some c ↔ _
    rw [Function.update_of_ne hj]
  have hself : ∀ c, m'.clients k = some c ↔ ⟨fd, b, none, req, false, none, false⟩ = c := fun c => by
    show Function.update m.clients k _ k = some c ↔ _
    rw [Function.update_self, Option.some_inj]
  refine ⟨⟨⟨⟨?_, ?_, hs.pool, hs.nodup, ?_, ?_, hs.conns, hs.connInj, hs.delim, hs.reserved, hs.plain⟩, ?_, h.unpooled,
    fun j c hj hl => ?_⟩, ⟨_, (hself _).2 rfl, rfl, rfl⟩, ?_⟩, ?_⟩
  · intro j hj
    have hjk : k + 1 ≤ j := hj
    show Function.update m.clients k _ j = none
    rw [Function.update_of_ne (by omega)]
    exact hs.clients j (by omega)
  · intro j c hj
    by_cases hjk : j = k
    · subst hjk
      obtain rfl := (hself c).1 hj
      simpa [Client.buffers] using hb.range
    · exact hs.buffers j c ((hold j c hjk).1 hj)
  · have hex : ∀ (P : Option Nat) fd' b',
      (∃ k' c₁, P = some k' ∧ m.clients k' = some c₁ ∧ c₁.fd = fd' ∧ c₁.buffer = b') →
        ∃ k' c₁, P = some k' ∧ m'.clients k' = some c₁ ∧ c₁.fd = fd' ∧ c₁.buffer = b' := by
      rintro P fd' b' ⟨k', c₁, hP, hk', h1, h2⟩
      have hne : k' ≠ k := by
        rintro rfl
        rw [hnone] at hk'
        cases hk'
      exact ⟨k', c₁, hP, (hold k' c₁ hne).2 hk', h1, h2⟩
    intro fd' f hf
    have hfit := hs.callbacks fd' f hf
    cases f with
    | readUntil f' b' cond callback => exact ⟨hfit.1, hex _ _ _ hfit.2⟩
    | writeBuffer f' b' callback => exact ⟨hfit.1, hex _ _ _ hfit.2⟩
    | empty => trivial
    | acceptTcp f' callback => exact hfit
    | user id => exact hfit
    | writeUntil f' b' cond callback => exact hfit
    | connect callback => exact hfit
    | autoClose f' => exact hfit
    | clientError k' => exact hfit
  · intro fd' f hf
    have hf' : Function.update m.service.fdsError fd (some (.clientError k)) fd' = some f := hf
    rw [Function.update_apply] at hf'
    split at hf'
    · rename_i he
      cases hf'
      exact Or.inr ⟨k, _, rfl, ⟨(hself _).2 rfl, rfl⟩, he.symm⟩
    · rcases hs.errors fd' f hf' with hauto | ⟨k', c₁, hf, hl, hcfd⟩
      · exact Or.inl hauto
      · have hne : k' ≠ k := by
          rintro rfl
          rw [hl.1] at hnone
          cases hnone
        exact Or.inr ⟨k', c₁, hf, ⟨(hold k' c₁ hne).2 hl.1, hl.2⟩, hcfd⟩
  · intro j hj
    rw [← h.others j hj]
    exact Function.update_of_ne hj ..
  · have hu := h.untouched j c hj hl
    refine ⟨hu.heap, hu.fds, ?_, hu.conn, hu.sent⟩
    show Function.update m.service.fdsError fd _ c.fd = _
    rw [Function.update_of_ne (hfree j c hl)]
    exact hu.fdsError
  · intro c hc j c' hj hl
    obtain rfl := (hself c).1 hc
    refine ⟨(hfree j c' hl).symm, fun b' hb' => ?_⟩
    obtain rfl : b' = b := by simpa [Client.buffers] using hb'
    exact hb.apart j c' hj hl
  · rintro c ⟨hc, -⟩
    obtain rfl := (hself c).1 hc
    refine ⟨fun b' hb' => ?_, hopen, ?_⟩
    · obtain rfl : b' = b := by simpa [Client.buffers] using hb'
      exact hp
    · show Function.update m.service.fdsError fd _ fd = _
      rw [Function.update_self]

/-- What a step on behalf of `who` does to the other clients. -/
def Spares (who : Option Nat) (m₀ m : Machine) : Prop :=
  ∀ j c, who ≠ some j → m₀.Live j c → m₀.Untouched m c ∧ m.clients j = m₀.clients j

theorem Spares.refl (who : Option Nat) (m : Machine) : Spares who m m := fun _ c _ _ => ⟨Untouched.refl m c, rfl⟩

theorem Owned.accept (h : m.Owned) (hfd : m.kernel.conn fd = none) :
    let m' := { m with kernel := { m.kernel with
      conn := Function.update m.kernel.conn fd (some m.kernel.nextConn), nextConn := m.kernel.nextConn + 1 } }
    m'.Owned ∧ Spares none m m' ∧ (m'.kernel.conn fd).isSome ∧ ∀ k c, m'.Live k c → c.fd ≠ fd := by
  intro m'
  have hs := h.sound
  have hfree : ∀ k c, m.Live k c → c.fd ≠ fd := by
    rintro k c hl rfl
    have := (h.held k c hl).isOpen
    rw [hfd] at this
    cases this
  have hconn : ∀ fd' x, m'.kernel.conn fd' = some x →
      fd' = fd ∧ x = m.kernel.nextConn ∨ fd' ≠ fd ∧ m.kernel.conn fd' = some x := by
    intro fd' x hx
    have hx' : Function.update m.kernel.conn fd (some m.kernel.nextConn) fd' = some x := hx
    rw [Function.update_apply] at hx'
    split at hx'
    · rename_i he
      exact Or.inl ⟨he, (Option.some.inj hx').symm⟩
    · rename_i he
      exact Or.inr ⟨he, hx'⟩
  have hkeep : ∀ fd', fd' ≠ fd → m'.kernel.conn fd' = m.kernel.conn fd' := fun fd' hne => Function.update_of_ne hne ..
  refine ⟨⟨⟨hs.clients, hs.buffers, hs.pool, hs.nodup, ?_, hs.errors, ?_, ?_, hs.delim, hs.reserved, hs.plain⟩,
    h.apart, ?_,
    h.heard⟩, ?_, ?_, hfree⟩
  · exact fun fd' f hf => (fits_congr rfl fd' f).2 (hs.callbacks fd' f hf)
  · intro fd' x hx
    show x < m.kernel.nextConn + 1
    rcases hconn fd' x hx with ⟨-, rfl⟩ | ⟨-, hx⟩
    · exact Nat.lt_succ_self _
    · exact Nat.lt_succ_of_lt (hs.conns fd' x hx)
  · intro fd₁ fd₂ x h1 h2
    rcases hconn fd₁ x h1 with ⟨e1, rfl⟩ | ⟨e1, h1⟩ <;> rcases hconn fd₂ _ h2 with ⟨e2, e⟩ | ⟨e2, h2⟩
    · rw [e1, e2]
    · have := hs.conns fd₂ _ h2
      omega
    · have := hs.conns fd₁ _ h1
      omega
    · exact hs.connInj fd₁ fd₂ _ h1 h2
  · intro k c hl
    have hh := h.held k c hl
    exact ⟨hh.unpooled, by rw [hkeep c.fd (hfree k c hl)]; exact hh.isOpen, hh.error⟩
  · exact fun j c _ hl => ⟨⟨fun _ _ => rfl, rfl, rfl, hkeep c.fd (hfree j c hl), fun _ _ => rfl⟩, rfl⟩
  · show (Function.update m.kernel.conn fd (some m.kernel.nextConn) fd).isSome
    rw [Function.update_self]
    rfl

theorem Owned.dropFd (h : m.Owned) (hfree : ∀ k c, m.Live k c → c.fd ≠ fd) :
    let m' := { m with
      service := (m.service.del fd).1
      kernel := { m.kernel with conn := Function.update m.kernel.conn fd none } }
    m'.Owned ∧ Spares none m m' := by
  intro m'
  have hs := h.sound
  have hfds : m'.service.fds = Function.update m.service.fds fd none := Service.del_fds ..
  have herr : m'.service.fdsError = Function.update m.service.fdsError fd none := Service.del_fdsError ..
  have hconn : ∀ fd' x, m'.kernel.conn fd' = some x → m.kernel.conn fd' = some x := by
    intro fd' x hx
    have hx' : Function.update m.kernel.conn fd none fd' = some x := hx
    rw [Function.update_apply] at hx'
    split at hx'
    · cases hx'
    · exact hx'
  have hkeep : ∀ k c, m.Live k c → m'.service.fds c.fd = m.service.fds c.fd ∧
      m'.service.fdsError c.fd = m.service.fdsError c.fd ∧ m'.kernel.conn c.fd = m.kernel.conn c.fd := by
    intro k c hl
    have hne := hfree k c hl
    rw [hfds, herr, Function.update_of_ne hne, Function.update_of_ne hne]
    exact ⟨rfl, rfl, Function.update_of_ne hne ..⟩
  refine ⟨⟨⟨hs.clients, hs.buffers, hs.pool, hs.nodup, ?_, ?_, ?_, ?_, hs.delim, hs.reserved, hs.plain⟩, h.apart,
    ?_, ?_⟩, ?_⟩
  · intro fd' f hf
    rw [hfds, Function.update_apply] at hf
    split at hf
    · cases hf
    · exact (fits_congr rfl fd' f).2 (hs.callbacks fd' f hf)
  · intro fd' f hf
    rw [herr, Function.update_apply] at hf
    split at hf
    · cases hf
    · exact hs.errors fd' f hf
  · exact fun fd' x hx => hs.conns fd' x (hconn fd' x hx)
  · exact fun fd₁ fd₂ x h1 h2 => hs.connInj fd₁ fd₂ x (hconn fd₁ x h1) (hconn fd₂ x h2)
  · intro k c hl
    obtain ⟨-, h2, h3⟩ := hkeep k c hl
    have hh := h.held k c hl
    exact ⟨hh.unpooled, h3 ▸ hh.isOpen, h2 ▸ hh.error⟩
  · intro k c hl
    rw [Heard, (hkeep k c hl).1]
    exact h.heard k c hl
  · intro j c _ hl
    obtain ⟨h1, h2, h3⟩ := hkeep j c hl
    exact ⟨⟨fun _ _ => rfl, h1, h2, h3, fun _ _ => rfl⟩, rfl⟩

end Machine
end V8h
