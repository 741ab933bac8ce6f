import Mathlib.Data.List.Forall2
import Mathlib.Data.List.Nodup
import Libccll.Foundation.Transition
import Libccll.Timers.Bookkeeping

/-! What the timer registry is for, and that the server keeps it.
The calls of the application reach the server as messages in a stream, at any later time.
-/

namespace Libccll.Timers

open Foundation

-----------------------------------------------------------------------------------------
-- The registry the application has in mind
-----------------------------------------------------------------------------------------

structure Entry where
  cb : UInt64
  sec : UInt16
  ms : UInt16
  repeats : Nat

/-- At most 100 timers, each for a callback of its own. -/
structure Registry where
  entries : List Entry
  distinct : (entries.map Entry.cb).Nodup
  nonNull : ∀ e ∈ entries, e.cb ≠ 0
  bounded : entries.length ≤ 100

def Registry.empty : Registry := ⟨[], List.nodup_nil, nofun, Nat.zero_le 100⟩

/-- Appends, unless the callback is `NULL`, registered, or one too many. -/
def Registry.set (r : Registry) (sec ms : UInt16) (repeats : Int) (cb : UInt64) : Registry :=
  if taken : cb = 0 ∨ cb ∈ r.entries.map Entry.cb ∨ r.entries.length = 100 then
    r
  else
    {
      entries := r.entries ++ [⟨cb, sec, ms, (repeats % 2 ^ 32).toNat⟩]
      distinct := by
        simp only [not_or] at taken
        rw [List.map_append, List.nodup_append]
        refine ⟨r.distinct, List.nodup_singleton _, ?_⟩
        intro a member b new
        obtain rfl := List.mem_singleton.mp new
        exact fun same => taken.2.1 (same ▸ member)
      nonNull := by
        simp only [not_or] at taken
        intro e member
        rcases List.mem_append.mp member with old | new
        · exact r.nonNull e old
        · exact List.mem_singleton.mp new ▸ taken.1
      bounded := by
        have bounded := r.bounded
        simp only [not_or] at taken
        rw [List.length_append, List.length_singleton]
        omega
    }

/-- Removes the entry of the callback, if there is one. -/
def Registry.cancel (r : Registry) (cb : UInt64) : Registry where
  entries := r.entries.eraseP (·.cb = cb)
  distinct := r.distinct.sublist (List.eraseP_sublist.map _)
  nonNull e member := r.nonNull e (List.mem_of_mem_eraseP member)
  bounded := Nat.le_trans (List.eraseP_sublist.length_le) r.bounded

@[simp] theorem Registry.entries_cancel (r : Registry) (cb : UInt64)
    : (r.cancel cb).entries = r.entries.eraseP (·.cb = cb) :=
  rfl

def Registry.apply (r : Registry) : Call → Registry
  | .clTimerSet sec ms repeats cb => r.set sec ms repeats.toInt cb
  | .clTimerCancel cb => r.cancel cb

-----------------------------------------------------------------------------------------
-- Messages
-----------------------------------------------------------------------------------------

/-- What the server reads of a message. -/
theorem _loadSrvBuf_fields {type sec ms : Nat} (typeSmall : type < 256) (secSmall : sec < 65536)
    (msSmall : ms < 65536) (rpe : UInt32) (cb : UInt64) (buf : Mem)
    : let sent := _loadSrvBuf type sec ms rpe cb buf
      LittleEndian.load 1 0 sent = 1
      ∧ LittleEndian.load 2 1 sent = 17
      ∧ LittleEndian.load 1 3 sent = type
      ∧ LittleEndian.load 2 4 sent = sec
      ∧ LittleEndian.load 2 6 sent = ms
      ∧ LittleEndian.load 4 8 sent = rpe.toNat
      ∧ LittleEndian.load 8 12 sent = cb.toNat := by
  have rpeSmall := rpe.toNat_lt
  have cbSmall := cb.toNat_lt
  simp only [_loadSrvBuf, Nat.zero_add, Nat.reduceAdd]
  refine ⟨?_, ?_, ?_, ?_, ?_, ?_, ?_⟩
  all_goals
    repeat rw [LittleEndian.load_store_apart (by omega)]
    exact LittleEndian.load_store_self (by omega) _ _

/-- The buffer of a call. -/
def Call.packed (buf : Mem) : Call → Mem
  | .clTimerSet sec ms repeats cb =>
      _loadSrvBuf 1 sec.toNat ms.toNat repeats.toUInt32 cb buf
  | .clTimerCancel cb => _loadSrvBuf 2 0 0 0 cb buf

theorem Call.message_eq (call : Call) (buf : Mem)
    : call.message buf = (List.range sz).map (call.packed buf) := by
  cases call <;> rfl

@[simp] theorem Call.length_message (call : Call) (buf : Mem)
    : (call.message buf).length = sz := by
  rw [Call.message_eq, List.length_map, List.length_range]

/-- The bytes in front of the stream are those of the first message. -/
theorem Call.load_message {n a : Nat} (inside : a + n ≤ sz) (call : Call) (buf : Mem)
    (rest : List UInt8)
    : LittleEndian.load n a (fun i => (call.message buf ++ rest).getD i 0)
      = LittleEndian.load n a (call.packed buf) := by
  apply LittleEndian.load_congr
  intro i _ below
  have inMessage : i < (call.message buf).length := by
    rw [Call.length_message]
    omega
  rw [List.getD_eq_getElem?_getD, List.getElem?_append_left inMessage, Call.message_eq,
    List.getElem?_map, List.getElem?_range (by omega)]
  rfl

/-- What a call makes the server do. -/
def Call.serve (kernel : Kernel) (s : Server) : Call → Server
  | .clTimerSet sec ms repeats cb => _addTimer kernel sec ms repeats.toUInt32 cb s
  | .clTimerCancel cb => _rmvTimer cb s

theorem _srvTimerProc_message (kernel : Kernel) (s : Server) (call : Call) (buf : Mem)
    (rest : List UInt8)
    : _srvTimerProc kernel (call.message buf ++ rest) s
      = some (false, call.serve kernel s, rest) := by
  have enough : ¬(call.message buf ++ rest).length < sz := by
    rw [List.length_append, Call.length_message]
    omega
  have dropped : (call.message buf ++ rest).drop sz = rest := by
    rw [← Call.length_message call buf, List.drop_left]
  simp only [_srvTimerProc, if_neg enough, dropped, procMessage, Nat.zero_add, Nat.reduceAdd,
    Call.load_message (show 0 + 1 ≤ sz by decide), Call.load_message (show 1 + 2 ≤ sz by decide),
    Call.load_message (show 3 + 1 ≤ sz by decide), Call.load_message (show 4 + 2 ≤ sz by decide),
    Call.load_message (show 6 + 2 ≤ sz by decide), Call.load_message (show 8 + 4 ≤ sz by decide),
    Call.load_message (show 12 + 8 ≤ sz by decide)]
  cases call with
  | clTimerSet sec ms repeats cb =>
      obtain ⟨opcode, len, type, secs, mss, rpe, cbs⟩ := _loadSrvBuf_fields
        (show 1 < 256 by decide) sec.toNat_lt ms.toNat_lt repeats.toUInt32 cb buf
      simp only [Call.packed, Call.serve, opcode, len, type, secs, mss, rpe, cbs, ne_eq,
        not_true_eq_false, if_false, UInt16.ofNat_toNat, UInt32.ofNat_toNat, UInt64.ofNat_toNat]
  | clTimerCancel cb =>
      obtain ⟨opcode, len, type, _, _, _, cbs⟩ := _loadSrvBuf_fields
        (show 2 < 256 by decide) (show 0 < 65536 by decide) (show 0 < 65536 by decide) 0 cb buf
      simp only [Call.packed, Call.serve, opcode, len, type, cbs, ne_eq, not_true_eq_false,
        if_false, UInt64.ofNat_toNat]

/-- A message that no client writes is dropped. -/
theorem procMessage_unknown (kernel : Kernel) (buf : Mem) (s : Server)
    (unknown
      : LittleEndian.load 1 0 buf ≠ 1
        ∨ LittleEndian.load 2 1 buf ≠ 17
        ∨ LittleEndian.load 1 3 buf ∉ [1, 2, 3])
    : procMessage kernel buf s = (false, s) := by
  simp only [procMessage, Nat.zero_add, Nat.reduceAdd]
  split
  · rfl
  · split
    · rfl
    · rename_i opcode len
      split <;> simp_all

-----------------------------------------------------------------------------------------
-- The period
-----------------------------------------------------------------------------------------

/-- What `timerfd_settime` accepts of a value or an interval. -/
def Accepted (sec nsec : Int) : Prop := 0 ≤ sec ∧ 0 ≤ nsec ∧ nsec ≤ 999999999

/-- `timerfd_settime` accepts both parts, and starts the timer. -/
def Itimerspec.Starts (its : Itimerspec) : Prop :=
  Accepted its.valueSec its.valueNsec
  ∧ Accepted its.intervalSec its.intervalNsec
  ∧ ¬(its.valueSec = 0 ∧ its.valueNsec = 0)

/-- Both parts are so many seconds and milliseconds. -/
def Itimerspec.Denotes (its : Itimerspec) (sec ms : Nat) : Prop :=
  its.valueSec * 1000000000 + its.valueNsec = sec * 1000000000 + ms * 1000000
  ∧ its.intervalSec * 1000000000 + its.intervalNsec = sec * 1000000000 + ms * 1000000

/-- The product `ms * 1000000` is an `int`. -/
def InRange (ms : UInt16) : Prop :=
  (Int32.ofNat (ms.toNat * 1000000)).toInt = (ms.toNat : Int) * 1000000

variable {sec ms : UInt16}

theorem inRange_iff : InRange ms ↔ ms.toNat ≤ 2147 := by
  constructor
  · intro same
    have small := Int32.toInt_lt (Int32.ofNat (ms.toNat * 1000000))
    rw [same] at small
    omega
  · intro short
    rw [InRange, Int32.toInt_ofNat_of_lt (by omega), Int.natCast_mul]
    rfl

theorem itimerspec_denotes_iff : (itimerspec sec ms).Denotes sec.toNat ms.toNat ↔ InRange ms := by
  simp only [Itimerspec.Denotes, itimerspec, InRange, and_self]
  omega

-----------------------------------------------------------------------------------------
-- The list of the server
-----------------------------------------------------------------------------------------

/-- A node of the list and its running timer are those of an entry. -/
def Client (s : Server) (tmr : Timer) (e : Entry) : Prop :=
  tmr.srv = false
  ∧ tmr.cb = e.cb
  ∧ tmr.repeats.toNat = e.repeats
  ∧ ∃ its, s.timerfds tmr.fd = some ⟨tmr.inst, its⟩ ∧ its.Denotes e.sec.toNat e.ms.toNat

/-- A node of the list is that of an entry, and its timer was started with what the server makes of
the period.
-/
def Armed (s : Server) (tmr : Timer) (e : Entry) : Prop :=
  tmr.srv = false
  ∧ tmr.cb = e.cb
  ∧ tmr.repeats.toNat = e.repeats
  ∧ s.timerfds tmr.fd = some ⟨tmr.inst, itimerspec e.sec e.ms⟩

/-- It runs with the period that was meant just when the product does not overflow. -/
theorem Armed.client_iff {s : Server} {tmr : Timer} {e : Entry} (armed : Armed s tmr e)
    : Client s tmr e ↔ e.ms.toNat ≤ 2147 := by
  obtain ⟨srv, cb, repeats, timerfd⟩ := armed
  constructor
  · rintro ⟨-, -, -, its, timerfd', denotes⟩
    obtain rfl : itimerspec e.sec e.ms = its :=
      (TimerFd.mk.inj (Option.some.inj (timerfd.symm.trans timerfd'))).2
    exact inRange_iff.mp (itimerspec_denotes_iff.mp denotes)
  · intro short
    exact ⟨srv, cb, repeats, _, timerfd, itimerspec_denotes_iff.mpr (inRange_iff.mpr short)⟩

/-- All of them do just when none overflows. -/
theorem clients_iff {s : Server} {clients : List Timer} {entries : List Entry}
    (armed : List.Forall₂ (Armed s) clients entries)
    : List.Forall₂ (Client s) clients entries ↔ ∀ e ∈ entries, e.ms.toNat ≤ 2147 := by
  induction armed with
  | nil => simp
  | cons here _ ih => rw [List.forall₂_cons, here.client_iff, ih, List.forall_mem_cons]

/-- Behind the server node the list has a client for every entry, in order. -/
structure Keeps (srvfd : Nat) (s : Server) (clients : List Timer) (entries : List Entry)
    : Prop where
  sound : Sound srvfd s clients
  clients : List.Forall₂ (Armed s) clients entries

/-- What every client has of its entry, the lists have of each other. -/
theorem map_eq_of_armed {γ : Type} {s : Server} {clients : List Timer} {entries : List Entry}
    {f : Timer → γ} {g : Entry → γ} (same : ∀ tmr e, Armed s tmr e → f tmr = g e)
    (matching : List.Forall₂ (Armed s) clients entries)
    : clients.map f = entries.map g := by
  induction matching with
  | nil => rfl
  | cons client _ ih => rw [List.map_cons, List.map_cons, same _ _ client, ih]

theorem cbs_eq {s : Server} {clients : List Timer} {entries : List Entry}
    (matching : List.Forall₂ (Armed s) clients entries)
    : clients.map Timer.cb = entries.map Entry.cb :=
  map_eq_of_armed (fun _ _ client => client.2.1) matching

/-- Clients keep their timer when it is not the one that changes. -/
theorem Armed.of_timerfds {s t : Server} {tmr : Timer} {e : Entry} (client : Armed s tmr e)
    (kept : t.timerfds tmr.fd = s.timerfds tmr.fd)
    : Armed t tmr e :=
  ⟨client.1, client.2.1, client.2.2.1, kept.trans client.2.2.2⟩

/-- The clients stay armed when the timers of their descriptors do. -/
theorem Keeps.clients_kept {srvfd : Nat} {s t : Server} {clients : List Timer}
    {entries : List Entry} (keeps : Keeps srvfd s clients entries)
    (kept : ∀ tmr ∈ clients, t.timerfds tmr.fd = s.timerfds tmr.fd)
    : List.Forall₂ (Armed t) clients entries :=
  ((List.forall₂_and_left _ _).mpr ⟨kept, keeps.clients⟩).imp
    fun _ _ both => both.2.of_timerfds both.1

theorem toNat_toUInt32 (repeats : Int32)
    : repeats.toUInt32.toNat = (repeats.toInt % 2 ^ 32).toNat := by
  have small := repeats.toUInt32.toNat_lt
  have signed : repeats.toInt = if 2 * repeats.toUInt32.toNat < 2 ^ 32 then
      (repeats.toUInt32.toNat : Int) else repeats.toUInt32.toNat - (2 ^ 32 : Nat) :=
    BitVec.toInt_eq_toNat_cond repeats.toBitVec
  rw [signed]
  split <;> omega

theorem Keeps.addTimer {srvfd fd : Nat} {s : Server} {clients : List Timer} {r : Registry}
    (keeps : Keeps srvfd s clients r.entries) (unused : s.Unused fd) (sec ms : UInt16)
    (repeats : Int32) (cb : UInt64)
    : ∃ clients',
        Keeps srvfd (_addTimer ⟨some fd, true, true⟩ sec ms repeats.toUInt32 cb s) clients'
          (r.set sec ms repeats.toInt cb).entries := by
  have length : s.liSock.length = r.entries.length + 1 := by
    rw [keeps.sound.liSock, List.length_cons, keeps.clients.length_eq]
  have bounded := r.bounded
  have known : s.liSock.any (·.cb = cb) = true ↔ cb = 0 ∨ cb ∈ r.entries.map Entry.cb := by
    rw [keeps.sound.liSock, ← cbs_eq keeps.clients, List.any_cons, Bool.or_eq_true,
      decide_eq_true_eq, List.any_eq_true, List.mem_map]
    simp only [srvNode, _creNode, decide_eq_true_eq, @eq_comm _ 0 cb]
  simp only [_addTimer, Registry.set]
  by_cases taken : cb = 0 ∨ cb ∈ r.entries.map Entry.cb ∨ r.entries.length = 100
  · refine ⟨clients, ?_⟩
    rw [dif_pos taken]
    split
    · exact keeps
    · rename_i unknown
      have full : s.liSock.length > maxTimerCnt := by
        rw [length]
        rcases taken with null | registered | full
        · exact absurd (known.mpr (Or.inl null)) unknown
        · exact absurd (known.mpr (Or.inr registered)) unknown
        · exact full ▸ by decide
      rw [if_pos full]
      exact keeps
  · rw [dif_neg taken]
    simp only [not_or] at taken
    have unknown : ¬s.liSock.any (·.cb = cb) = true :=
      fun isKnown => (known.mp isKnown).elim taken.1 taken.2.1
    have unknown' : ∀ tmr ∈ s.liSock, tmr.cb ≠ cb := by
      intro tmr member same
      exact unknown (List.any_eq_true.mpr ⟨tmr, member, decide_eq_true same⟩)
    have room : ¬s.liSock.length > maxTimerCnt := by
      simp only [maxTimerCnt]
      omega
    rw [if_neg unknown, if_neg room, _creCliNode_success]
    refine ⟨_, keeps.sound.withClient unused sec ms repeats.toUInt32 unknown', ?_⟩
    refine List.rel_append (keeps.clients_kept ?_) (List.Forall₂.cons ?_ List.Forall₂.nil)
    · intro tmr member
      have apart := keeps.sound.fd_ne_unused unused tmr
        (keeps.sound.mem_liSock.mpr (Or.inr member))
      exact Function.update_of_ne apart ..
    · exact ⟨rfl, rfl, toNat_toUInt32 repeats, Function.update_self ..⟩

/-- Matching lists split at the same place. -/
theorem forall₂_split {α β : Type*} {R : α → β → Prop} {front back : List α} {a : α}
    {bs : List β} (matching : List.Forall₂ R (front ++ a :: back) bs)
    : ∃ front' b back',
        bs = front' ++ b :: back'
        ∧ List.Forall₂ R front front'
        ∧ R a b
        ∧ List.Forall₂ R back back' := by
  induction front generalizing bs with
  | nil =>
      obtain ⟨b, back', related, rest, rfl⟩ := List.forall₂_cons_left_iff.mp matching
      exact ⟨[], b, back', rfl, List.Forall₂.nil, related, rest⟩
  | cons c front ih =>
      obtain ⟨d, bs, related, rest, rfl⟩ := List.forall₂_cons_left_iff.mp matching
      obtain ⟨front', b, back', rfl, before, here, after⟩ := ih rest
      exact ⟨d :: front', b, back', rfl, List.Forall₂.cons related before, here, after⟩

theorem Keeps.rmvTimer {srvfd : Nat} {s : Server} {clients : List Timer} {r : Registry}
    (keeps : Keeps srvfd s clients r.entries) (cb : UInt64)
    : ∃ clients', Keeps srvfd (_rmvTimer cb s) clients' (r.cancel cb).entries := by
  rcases keeps.sound.rmvTimer_cases cb with
    ⟨unknown, unchanged⟩ | ⟨front, tmr, back, rfl, isMatch, removed⟩
  · have unknown' : ∀ e ∈ r.entries, ¬(decide (e.cb = cb) = true) := by
      intro e member same
      have registered : e.cb ∈ clients.map Timer.cb :=
        cbs_eq keeps.clients ▸ List.mem_map_of_mem member
      obtain ⟨tmr, listed, sameCb⟩ := List.mem_map.mp registered
      exact unknown tmr listed (sameCb.trans (of_decide_eq_true same))
    refine ⟨clients, ?_⟩
    rw [unchanged, Registry.entries_cancel, List.eraseP_of_forall_not unknown']
    exact keeps
  · obtain ⟨front', e, back', entries, frontClients, client, backClients⟩ :=
      forall₂_split keeps.clients
    have cbs := r.distinct
    rw [entries, List.map_append, List.map_cons, List.nodup_append] at cbs
    have sameCb : e.cb = cb := client.2.1.symm.trans isMatch
    have before : ∀ e ∈ front', ¬(decide (e.cb = cb) = true) := by
      intro other member same
      exact cbs.2.2 other.cb (List.mem_map_of_mem member) e.cb List.mem_cons_self
        ((of_decide_eq_true same).trans sameCb.symm)
    have cancelled : (r.cancel cb).entries = front' ++ back' := by
      rw [Registry.entries_cancel, entries, List.eraseP_append_right _ before,
        List.eraseP_cons_of_pos (p := fun e : Entry => decide (e.cb = cb))
          (decide_eq_true sameCb)]
    refine ⟨front ++ back, removed ▸ keeps.sound.without, ?_⟩
    rw [cancelled, removed]
    refine ((List.forall₂_and_left _ _).mpr ⟨?_, List.rel_append frontClients backClients⟩).imp
      fun _ _ both => both.2.of_timerfds both.1
    intro t member
    exact Function.update_of_ne (keeps.sound.other_nodes t (List.mem_cons_of_mem _ member)).1 ..

-----------------------------------------------------------------------------------------
-- Client and server together
-----------------------------------------------------------------------------------------

/-- The stream of messages between application and server, and, as history, the calls that
returned `SUCC`.
-/
structure Session where
  stream : List UInt8
  server : Server
  made : List Call

/-- The application makes a call, whose message is written or not; or the server reads a
message, and the kernel would hand out descriptor `fd`.
-/
inductive Move where
  | call (call : Call) (buf : Mem) (written : Bool)
  | serve (fd : Nat)

/-- Kernel calls of the server succeed, and a new descriptor is not one that is open. -/
def Session.step (s : Session) : Move → Option Session
  | .call call buf written =>
      let (ret, stream) := call.run buf written s.stream
      some { s with stream, made := if ret = .succ then s.made ++ [call] else s.made }
  | .serve fd =>
      if s.server.Unused fd then
        (_srvTimerProc ⟨some fd, true, true⟩ s.stream s.server).map fun (_, server, stream) =>
          { s with stream, server }
      else
        none

/-- The registry after a sequence of calls. -/
def Registry.after (calls : List Call) : Registry :=
  calls.foldl Registry.apply Registry.empty

/-- The server is at the registry of the calls it has read, and the stream holds the messages
of the others.
-/
def Served (srvfd : Nat) (s : Session) : Prop :=
  ∃ (read : List Call) (unread : List (Call × Mem)) (clients : List Timer),
    s.made = read ++ unread.map Prod.fst
    ∧ s.stream = unread.flatMap (fun message => message.1.message message.2)
    ∧ Keeps srvfd s.server clients (Registry.after read).entries

/-- A message read is a call of the registry. -/
theorem Keeps.serve {srvfd fd : Nat} {s : Server} {clients : List Timer} {r : Registry}
    (keeps : Keeps srvfd s clients r.entries) (unused : s.Unused fd) (call : Call)
    : ∃ clients',
        Keeps srvfd (call.serve ⟨some fd, true, true⟩ s) clients' (r.apply call).entries := by
  cases call with
  | clTimerSet sec ms repeats cb => exact keeps.addTimer unused sec ms repeats cb
  | clTimerCancel cb => exact keeps.rmvTimer cb

theorem Served.step {srvfd : Nat} {s t : Session} {move : Move} (served : Served srvfd s)
    (stepped : s.step move = some t)
    : Served srvfd t := by
  obtain ⟨read, unread, clients, made, stream, keeps⟩ := served
  cases move with
  | call call buf written =>
      obtain rfl := Option.some.inj stepped
      cases written with
      | false => exact ⟨read, unread, clients, made, stream, keeps⟩
      | true =>
          refine ⟨read, unread ++ [(call, buf)], clients, ?_, ?_, keeps⟩
          · change s.made ++ [call] = _
            rw [made, List.map_append, List.append_assoc]
            rfl
          · change s.stream ++ call.message buf = _
            rw [stream, List.flatMap_append, List.flatMap_cons, List.flatMap_nil,
              List.append_nil]
  | serve fd =>
      simp only [Session.step] at stepped
      split at stepped
      · rename_i unused
        cases unread with
        | nil =>
            rw [stream] at stepped
            cases stepped
        | cons message unread =>
            rw [stream, List.flatMap_cons, _srvTimerProc_message] at stepped
            obtain rfl := Option.some.inj stepped
            obtain ⟨clients', keeps'⟩ := keeps.serve unused message.1
            refine ⟨read ++ [message.1], unread, clients', ?_, rfl, ?_⟩
            · change s.made = _
              rw [made, List.append_assoc]
              rfl
            · rw [Registry.after, List.foldl_append]
              exact keeps'
      · cases stepped

theorem cbs_repeats_eq {s : Server} {clients : List Timer} {entries : List Entry}
    (matching : List.Forall₂ (Armed s) clients entries)
    : clients.map (fun tmr => (tmr.cb, tmr.repeats.toNat))
      = entries.map fun e => (e.cb, e.repeats) :=
  map_eq_of_armed (fun _ _ client => Prod.ext client.2.1 client.2.2.1) matching

/-- End to end: whenever the server has read all messages of the calls made so far, the callbacks
and repeats of its client timers are those of the registry, in order; and they are its entries,
periods included, if and only if no entry has more than 2147 milliseconds. A message that no client
writes changes nothing.
-/
theorem timers_registered (srvfd : Nat) (moves : List Move) (s : Session)
    (ran : Transition.run Session.step ⟨[], initial srvfd, []⟩ moves = some s)
    : (s.stream = []
        → ∃ clients,
          s.server.liSock = srvNode srvfd :: clients
          ∧ clients.map (fun tmr => (tmr.cb, tmr.repeats.toNat))
            = (Registry.after s.made).entries.map (fun e => (e.cb, e.repeats))
          ∧ (List.Forall₂ (Client s.server) clients (Registry.after s.made).entries
            ↔ ∀ e ∈ (Registry.after s.made).entries, e.ms.toNat ≤ 2147))
      ∧ ∀ (kernel : Kernel) (buf : Mem) (server : Server),
        LittleEndian.load 1 0 buf ≠ 1
            ∨ LittleEndian.load 2 1 buf ≠ 17
            ∨ LittleEndian.load 1 3 buf ∉ [1, 2, 3]
          → procMessage kernel buf server = (false, server) := by
  refine ⟨?_, procMessage_unknown⟩
  intro readAll
  have started : Served srvfd ⟨[], initial srvfd, []⟩ :=
    ⟨[], [], [], rfl, rfl, sound_initial srvfd, List.Forall₂.nil⟩
  obtain ⟨read, unread, clients, made, stream, keeps⟩ :=
    Transition.run_invariant (fun served stepped => Served.step served stepped) started ran
  cases unread with
  | nil =>
      rw [List.map_nil, List.append_nil] at made
      rw [made]
      exact ⟨clients, keeps.sound.liSock, cbs_repeats_eq keeps.clients,
        clients_iff keeps.clients⟩
  | cons message unread =>
      have length := congrArg List.length (stream.symm.trans readAll)
      rw [List.flatMap_cons, List.length_append, Call.length_message] at length
      simp at length

/-- A timer that fires forever is set, and another one canceled that is not registered. -/
theorem timers_registered_setCancel
    : let s := (Transition.run Session.step ⟨[], initial 3, []⟩
        [.call (.clTimerSet 1 500 (-1) 77) (fun _ => 0) true, .serve 5,
          .call (.clTimerCancel 78) (fun _ => 9) true, .serve 6]).get (by decide +kernel)
      ∃ clients,
        s.server.liSock = srvNode 3 :: clients
        ∧ List.Forall₂ (Client s.server) clients (Registry.after s.made).entries := by
  intro s
  obtain ⟨clients, listed, -, exact_⟩ :=
    (timers_registered 3 _ s (Option.some_get _).symm).1 (by decide +kernel)
  exact ⟨clients, listed, exact_.mpr (by decide +kernel)⟩

/-- For 4295 milliseconds the kernel is asked for 32704 nanoseconds, which it grants. -/
theorem timers_registered_overflow
    : ¬∀ (moves : List Move) (s : Session),
        Transition.run Session.step ⟨[], initial 3, []⟩ moves = some s
        → (∀ fd timerfd, s.server.timerfds fd = some timerfd → timerfd.its.Starts)
        → s.stream = []
        → ∃ clients,
          s.server.liSock = srvNode 3 :: clients
          ∧ List.Forall₂ (Client s.server) clients (Registry.after s.made).entries := by
  intro claim
  let call : Call := .clTimerSet 0 4295 0 77
  let server : Server := (initial 3).withClient 5 0 4295 0 77
  have added : call.serve ⟨some 5, true, true⟩ (initial 3) = server := by
    change _addTimer _ 0 4295 0 77 _ = _
    rw [_addTimer, if_neg (by decide), if_neg (by decide), _creCliNode_success]
  have served := _srvTimerProc_message ⟨some 5, true, true⟩ (initial 3) call (fun _ => 0) []
  rw [added, List.append_nil] at served
  have unused : (initial 3).Unused 5 := by decide
  have ran
      : Transition.run Session.step ⟨[], initial 3, []⟩ [.call call (fun _ => 0) true, .serve 5]
        = some ⟨[], server, [call]⟩ := by
    change (Session.step ⟨call.message fun _ => 0, initial 3, [call]⟩ (.serve 5)).bind _ = _
    simp only [Session.step, if_pos unused, served]
    rfl
  have timerfds (fd : Nat)
      : server.timerfds fd = if fd = 5 then some ⟨1, itimerspec 0 4295⟩ else none :=
    Function.update_apply ..
  have granted : (itimerspec 0 4295).Starts := by
    simp only [Itimerspec.Starts, Accepted]
    decide
  have accepted (fd : Nat) (timerfd : TimerFd) (running : server.timerfds fd = some timerfd)
      : timerfd.its.Starts := by
    rw [timerfds] at running
    split at running
    · obtain rfl := Option.some.inj running
      exact granted
    · cases running
  obtain ⟨clients, listed, matching⟩ := claim _ _ ran accepted rfl
  obtain rfl : [(initial 3).newest 5 0 77] = clients := (List.cons.inj listed).2
  obtain ⟨-, -, -, its, running, denotes⟩ := (List.forall₂_cons.mp matching).1
  obtain rfl : itimerspec 0 4295 = its := (TimerFd.mk.inj (Option.some.inj running)).2
  exact absurd (inRange_iff.mp (itimerspec_denotes_iff.mp denotes)) (by decide)

end Libccll.Timers
