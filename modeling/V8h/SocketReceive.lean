import V8h.SocketSpec
/-!
# SocketReceive — what each result of `recv` does to the buffer

`Socket::_read_buffer` keeps the result of `recv` in a `size_t` and takes it for an error only when it is 0: -1 is
`2 ^ 64 - 1` there, and is committed.  So a failed `recv` takes a byte off both counters (`commit_sizeMax`), and the
call leaves the buffer as it should exactly when `recv` does not fail (`receive_intact_iff`).
-/
namespace V8h
namespace Buffer

variable {w : Nat} {b : Buffer}

/-- **-1 is committed as a size**: both counters lose one. -/
theorem commit_sizeMax (hpw : 0 < w) (hs : b.size < 2 ^ w) : (b.commit w (sizeMax w)).size ≠ b.size := by
  have hpos := Nat.two_pow_pos w
  simp only [commit, sizeMax, sizeT]
  intro h
  rcases Nat.eq_zero_or_pos b.size with h0 | h0
  · rw [h0, Nat.zero_add, Nat.mod_eq_of_lt (by omega)] at h
    have hw := Nat.pow_lt_pow_right (by decide : 1 < 2) hpw
    omega
  · rw [show b.size + (2 ^ w - 1) = b.size - 1 + 2 ^ w by omega, Nat.add_mod_right, Nat.mod_eq_of_lt (by omega)] at h
    omega

end Buffer

namespace Socket

open Machine Effect

/-- What `recv` gives when there is room for `n` bytes: the bytes, or `none` for -1. -/
def recvOf (ans : Answers) (isOpen : Bool) (n : Nat) : Option (List UInt8) :=
  match isOpen, ans.recv with
  | true, .data bytes => some (bytes.take n)
  | _,    _           => none

variable {m : Machine} {ans : Answers} {fd : Int} {id n : Nat}

theorem recv_run (ans : Answers) (fd : Int) (n : Nat) (m : Machine) :
    ∃ e, recv ans fd n m = .ok (recvOf ans (m.kernel.conn fd).isSome n)
      { m with kernel := { m.kernel with errno := e } } := by
  cases hc : m.kernel.conn fd with
  | none => exact ⟨.badFd, by simp only [recv, hc, recvOf, Option.isSome_none]⟩
  | some c =>
    cases hr : ans.recv with
    | data bytes => exact ⟨m.kernel.errno, by simp only [recv, hc, hr, recvOf, Option.isSome_some]⟩
    | error e => exact ⟨e, by simp only [recv, hc, hr, recvOf, Option.isSome_some]⟩

/-- What is received is appended and counted; when nothing is, -1 is returned and the buffer is as it was. -/
def Intact (b b' : Buffer) (n : Int) : Option (List UInt8) → Prop
  | some (x :: xs)   => n = (x :: xs).length ∧ b'.content = b.content ++ (x :: xs).map some
  | some [] | none => n = -1 ∧ b'.content = b.content ∧ b'.cursor = b.cursor ∧ b'.size = b.size ∧ b'.used = b.used

/-- The call returns, and does to the buffer what the result of `recv` asks for. -/
def Receives (ans : Answers) (fd : Int) (id : Nat) (m : Machine) (b : Buffer) : Prop :=
  ∃ n m' b₁ b', b.prepare 64 8192 = .ok b₁ ∧ _readBuffer ans fd id m = .ok n m' ∧ (m'.heap id).native = some b' ∧
    b'.Counted 64 ∧ Intact b b' n (recvOf ans (m.kernel.conn fd).isSome (b₁.remain 64))

variable {b b₁ : Buffer}

/-- The machine when `recv` has returned. -/
def afterRecv (m : Machine) (id : Nat) (b : Buffer) (e : Errno) : Machine :=
  { m.setBuffer id b with kernel := { m.kernel with errno := e } }

/-- What `_readBuffer` does with the result of `recv`. -/
def finishRead (id : Nat) (b : Buffer) : Option (List UInt8) → M Int
  | none       => do
    setNative id (b.commit 64 (sizeMax 64))
    return -1
  | some []    => do
    setErrno .netDown
    return -1
  | some bytes => do
    let b ← lift (b.store b.used (bytes.map some))
    setNative id (b.commit 64 bytes.length)
    return toInt bytes.length

/-- A call whose `prepare` returns, up to what it does with the result of `recv`. -/
theorem _readBuffer_prepared (ans : Answers) (fd : Int) (hb : (m.heap id).native = some b)
    (hp : b.prepare 64 8192 = .ok b₁) : ∃ e, _readBuffer ans fd id m =
      finishRead id b₁ (recvOf ans (m.kernel.conn fd).isSome (b₁.remain 64)) (afterRecv m id b₁ e) := by
  obtain ⟨e, hrecv⟩ := recv_run ans fd (b₁.remain 64) (m.setBuffer id b₁)
  refine ⟨e, ?_⟩
  rw [_readBuffer, bind_ok (native_run hb), hp]
  refine (bind_ok rfl).trans ((bind_ok (setNative_run m id b₁)).trans ((bind_ok hrecv).trans ?_))
  rw [setBuffer_kernel]
  cases recvOf ans (m.kernel.conn fd).isSome (b₁.remain 64) with
  | none => rfl
  | some bytes => cases bytes <;> rfl

/-- What is received fits into the room there was. -/
theorem length_recvOf {isOpen : Bool} {bytes : List UInt8} (h : recvOf ans isOpen n = some bytes) :
    bytes.length ≤ n := by
  unfold recvOf at h
  split at h
  · rw [← Option.some.inj h]
    exact List.length_take_le ..
  · cases h

/-- **The error path**: the buffer that was prepared, less one byte. -/
theorem finishRead_none (id : Nat) (b : Buffer) (m : Machine) :
    finishRead id b none m = .ok (-1) (m.setBuffer id (b.commit 64 (sizeMax 64))) := rfl

/-- **Bytes are received.** -/
theorem finishRead_some (id : Nat) {bytes : List UInt8} (h : b.Counted 64) (hne : bytes ≠ [])
    (hle : bytes.length ≤ b.remain 64) (m : Machine) :
    ∃ b', finishRead id b (some bytes) m = .ok (toInt bytes.length) (m.setBuffer id b') ∧
      b'.Counted 64 ∧ b'.content = b.content ++ bytes.map some := by
  obtain ⟨x, xs, rfl⟩ := List.exists_cons_of_ne_nil hne
  have hroom := h.room
  have hfits : b.used + (x :: xs).length ≤ b.reserve := by
    rw [Buffer.remain_eq hroom h.word] at hle
    omega
  rw [← List.length_map (some : UInt8 → Cell)] at hfits
  obtain ⟨b', hstore, hcount, hcontent⟩ := Buffer.Counted.fill h hfits
  rw [List.length_map] at hcount hcontent
  refine ⟨b'.commit 64 (x :: xs).length, ?_, hcount, hcontent⟩
  have hlift : lift (b.store b.used ((x :: xs).map some)) m = .ok b' m := by rw [hstore]; rfl
  exact (bind_ok hlift).trans (bind_ok (setNative_run m id _))

/-- **A call of `_readBuffer` does what the result of `recv` asks for exactly when `prepare` returns and the result is
not -1**; what is returned is an `int`. -/
theorem receive_intact_iff (ans : Answers) (fd : Int) (hb : (m.heap id).native = some b) (h : b.Counted 64) :
    Receives ans fd id m b ↔ ∃ b₁ bytes, b.prepare 64 8192 = .ok b₁ ∧
      recvOf ans (m.kernel.conn fd).isSome (b₁.remain 64) = some bytes ∧ bytes.length < 2 ^ 31 := by
  constructor
  · rintro ⟨n, m', b₁, b', hp, hrun, hb', -, hintact⟩
    obtain ⟨e, hrest⟩ := _readBuffer_prepared ans fd hb hp
    obtain ⟨h₁, -, -, hsize, -⟩ := h.prepare hp
    have hle : ∀ bytes, recvOf ans (m.kernel.conn fd).isSome (b₁.remain 64) = some bytes →
        bytes.length ≤ b₁.remain 64 :=
      fun _ => length_recvOf
    rw [hrest] at hrun
    generalize hgot : recvOf ans (m.kernel.conn fd).isSome (b₁.remain 64) = got at hrun hintact hle
    rcases got with _ | _ | ⟨x, xs⟩
    · obtain ⟨-, -, -, hsize', -⟩ := hintact
      rw [finishRead_none] at hrun
      cases hrun
      rw [setBuffer_heap_self] at hb'
      cases hb'
      have hcount := h₁.counters
      have hroom := h₁.room
      have hword := h₁.word
      exact absurd (hsize'.trans hsize.symm) (Buffer.commit_sizeMax (by decide) (by omega))
    · exact ⟨b₁, [], hp, hgot, by decide⟩
    · obtain ⟨b₂, hfinish, -⟩ := finishRead_some id h₁ (List.cons_ne_nil x xs) (hle _ rfl) (afterRecv m id b₁ e)
      obtain ⟨hn, -⟩ := hintact
      have hret : toInt (x :: xs).length = n := (EStateM.Result.ok.inj (hfinish.symm.trans hrun)).1
      have hlt : toInt (x :: xs).length < 2 ^ 31 := Int.bmod_lt (m := 2 ^ 32) (by decide)
      exact ⟨b₁, x :: xs, hp, hgot, by omega⟩
  · rintro ⟨b₁, bytes, hp, hgot, hlen⟩
    obtain ⟨e, hrest⟩ := _readBuffer_prepared ans fd hb hp
    obtain ⟨h₁, hcontent, hcursor, hsize, hused⟩ := h.prepare hp
    rw [hgot] at hrest
    cases bytes with
    | nil =>
      refine ⟨-1, _, b₁, b₁, hp, hrest.trans rfl, congrArg BufferObj.native (setBuffer_heap_self m id b₁), h₁, ?_⟩
      rw [hgot]
      exact ⟨rfl, hcontent, hcursor, hsize, hused⟩
    | cons x xs =>
      obtain ⟨b₂, hfinish, hcount, hfill⟩ :=
        finishRead_some id h₁ (List.cons_ne_nil x xs) (length_recvOf hgot) (afterRecv m id b₁ e)
      refine ⟨toInt (x :: xs).length, _, b₁, b₂, hp, hrest.trans hfinish,
        congrArg BufferObj.native (setBuffer_heap_self ..), hcount, ?_⟩
      rw [hgot]
      exact ⟨toInt_of_lt (by omega) (by omega), hfill.trans (congrArg (· ++ _) hcontent)⟩

/-- Three bytes are received. -/
theorem receive_intact_three : Receives ⟨.data [1, 2, 3], [], none⟩ 5 2 (Machine.listening [0]) (Buffer.new 512) := by
  have hcount : (Buffer.new 512).Counted 64 := (Buffer.Tracks.new (by decide)).counted
  have hnew : Buffer.Holds 64 (Buffer.new 512) [] := Buffer.new_spec (by decide) (by decide)
  obtain ⟨b₁, hp, hremain⟩ := Buffer.prepare_remain hnew (Buffer.fits_of_le (n := 8192) (by decide))
  have htake : [1, 2, 3].take (b₁.remain 64) = [1, 2, (3 : UInt8)] :=
    List.take_of_length_le (Nat.le_trans (by decide) hremain)
  have hnative : ((Machine.listening [0]).heap 2).native = some (Buffer.new 512) := rfl
  exact (receive_intact_iff ⟨.data [1, 2, 3], [], none⟩ 5 hnative hcount).2
    ⟨b₁, _, hp, congrArg some htake, by decide⟩

/-- **A `recv` that would block takes a byte that is not there off an empty buffer**, which then has a size of
`2 ^ 64 - 1`. -/
theorem blocked_receive :
    ¬ Receives ⟨.error .again, [], none⟩ 5 2 (Machine.listening [0]) (Buffer.new 512) ∧
    ((after (_readBuffer ⟨.error .again, [], none⟩ 5 2) (Machine.listening [0])).heap 2).native.map Buffer.size =
      some (2 ^ 64 - 1) := by
  have hsize : ((after (_readBuffer ⟨.error .again, [], none⟩ 5 2) (Machine.listening [0])).heap 2).native.map
      Buffer.size = some (2 ^ 64 - 1) := by decide +kernel
  refine ⟨?_, hsize⟩
  rintro ⟨n, m', b₁, b', -, hrun, hb', -, -, -, -, hsame, -⟩
  simp only [after, hrun, hb', Option.map_some, Option.some.injEq, hsame] at hsize
  cases hsize

end Socket
end V8h
