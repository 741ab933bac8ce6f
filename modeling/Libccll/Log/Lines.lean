import Libccll.Log.Calls

/-! Every message gets through whole: once, in the order of the lock, and under its own header, as
long as the log is up while it is in use.
-/

namespace Libccll.Log

open Foundation CString LocalTime

variable {θ : Type*} {zone : Zone}

-----------------------------------------------------------------------------------------
-- What is needed, and what holds then
-----------------------------------------------------------------------------------------

/-- The thread has the lock. -/
def Place.inside : Place zone → Bool
  | .formatting .. | .calling .. | .printing .. | .unlocking => true
  | _ => false

/-- The thread has the lock or is to take it. -/
def Place.busy : Place zone → Bool
  | .locking .. => true
  | place => place.inside

/-- The message is still to be printed by the thread that has the lock. -/
def Place.pending : Place zone → List (Nat × Request)
  | .formatting n request _ | .calling n request | .printing n request _ => [(n, request)]
  | _ => []

/-- There is a buffer. -/
def Pointer.usable : Pointer → Bool
  | .block bytes => bytes.length = logBufSz
  | _ => false

def Pointer.dangles : Pointer → Bool
  | .dangling => true
  | _ => false

/-- The log is up. -/
def State.Up (s : State θ zone) : Prop :=
  s.ready = true ∧ s.gInit = true ∧ s.gLogBuf.usable = true

instance (s : State θ zone) : Decidable s.Up := inferInstanceAs (Decidable (_ ∧ _))

/-- Tags fit into the header; the log is up when a call passes its test; it is brought up and down
when no call has passed its test and is not over, and brought down once.
-/
def State.Orderly (s : State θ zone) : Action θ zone → Prop
  | .call _ (.log request) | .call _ (.console request) => Fits request.tag
  | .call _ _ | .setPrtfun _ => True
  | .proceed t _ =>
      match s.places t with
      | .testing request => s.gAlowLogType ≤ request.type.code → s.Up
      | .init .mutex | .init .malloc | .deinit .null | .deinit .mutex => s.busy.isEmpty = true
      | .deinit .free => s.busy.isEmpty = true ∧ s.gLogBuf.dangles = false
      | _ => True

instance (s : State θ zone) (action : Action θ zone) : Decidable (s.Orderly action) := by
  unfold State.Orderly
  split
  · infer_instance
  · infer_instance
  · infer_instance
  · infer_instance
  · split <;> infer_instance

/-- The header, as far as `def_print_fun` has come with it. -/
def Printing.Headed (hdr : Buffer) (request : Request) : Printing zone → Prop
  | .dividing clock => Holds hdr 0 clock.date
  | .labeling => ∃ clock : Clock zone, Holds hdr 0 (clock.date ++ clock.fraction)
  | .showing => ∃ clock : Clock zone, Holds hdr 0 (header clock request.type request.tag)
  | _ => True

/-- The message, as far as the thread that has the lock has come with it. -/
def Place.Fine (s : State θ zone) : Place zone → Prop
  | .formatting _ request i =>
      ∃ bytes,
        s.gLogBuf = .block bytes
        ∧ i ≤ request.cut.length
        ∧ bytes.take i = request.cut.take i
  | .calling _ request => s.message = some request.cut
  | .printing _ request place =>
      s.message = some request.cut ∧ (s.consoled = 0 → place.Headed s.gLogHdr request)
  | _ => True

/-- The tag that is to go into the header. -/
def Place.TagFits : Place zone → Prop
  | .testing request | .locking _ request | .formatting _ request _ | .calling _ request
  | .printing _ request _ | .consoleTesting request | .console request _ => Fits request.tag
  | _ => True

/-- Only `cl_console_prt` prints without the lock. -/
def Place.consoles : Place zone → Bool
  | .console .. => true
  | _ => false

/-- What holds of a thread at a place. -/
structure Local (s : State θ zone) (t : θ) (place : Place zone) : Prop where
  busy : t ∈ s.busy ↔ place.busy = true
  owner : place.inside = true ↔ s.gLock = some t
  tag : place.TagFits
  consoled : place.consoles = true → 0 < s.consoled
  fine : place.Fine s
  accounts : place.inside = true → s.taken = s.printed.map Entry.call ++ place.pending

/-- A message that is through: the text, cut where `vsnprintf` does, and nothing else. -/
def Entry.Whole (e : Entry) : Prop :=
  match e.line with
  | none => True
  | some (.told txt) => txt = e.request.cut
  | some (.shown bytes) => ∃ hdr, bytes = Log.line e.request.type hdr e.request.cut

/-- The header on the console is of the call. -/
def Entry.Headed (zone : Zone) (e : Entry) : Prop :=
  ∀ bytes,
    e.line = some (.shown bytes)
      → ∃ clock : Clock zone,
          bytes
          = Log.line e.request.type (header clock e.request.type e.request.tag) e.request.cut

/-- What holds of the shared data. -/
structure Shared (s : State θ zone) : Prop where
  alive : s.ended = false
  size : s.gLogHdr.length = 128
  string : 0 ∈ s.gLogHdr
  nodup : s.busy.Nodup
  up : s.busy ≠ [] → s.ready = true ∧ s.gLogBuf.usable = true
  kept : s.lowered = false → s.busy ≠ [] → s.gInit = true
  accounts : s.gLock = none → s.taken = s.printed.map Entry.call
  whole : ∀ e ∈ s.printed, e.Whole ∧ (e.line = none → s.lowered = true)
  headed : s.consoled = 0 → ∀ e ∈ s.printed, e.Headed zone

structure Sound (s : State θ zone) : Prop where
  shared : Shared s
  threads : ∀ t, Local s t (s.places t)

/-- Nothing changes for another thread. -/
structure Frame (s s' : State θ zone) (u : θ) : Prop where
  busy : u ∈ s'.busy ↔ u ∈ s.busy
  owner : s'.gLock = some u ↔ s.gLock = some u
  consoled : s.consoled ≤ s'.consoled
  inside
    : s.gLock = some u
      → s'.gLogBuf = s.gLogBuf
        ∧ s'.taken = s.taken
        ∧ s'.printed = s.printed
        ∧ (s'.consoled = 0 → s'.gLogHdr = s.gLogHdr)

-----------------------------------------------------------------------------------------
-- One step
-----------------------------------------------------------------------------------------

variable {s s' : State θ zone} {t u : θ} {place : Place zone} {request : Request}

theorem State.message_congr (same : s'.gLogBuf = s.gLogBuf) : s'.message = s.message := by
  rw [State.message, State.message, same]

theorem Local.frame (here : Local s u place) (frame : Frame s s' u) : Local s' u place := by
  have unconsoled (none : s'.consoled = 0) : s.consoled = 0 :=
    Nat.le_zero.mp (none ▸ frame.consoled)
  refine
    { busy := frame.busy.trans here.busy
      owner := here.owner.trans frame.owner.symm
      tag := here.tag
      consoled := fun consoles => (here.consoled consoles).trans_le frame.consoled
      fine := ?_
      accounts := ?_ }
  · have fine := here.fine
    cases place with
    | formatting n request i =>
        rw [Place.Fine, (frame.inside (here.owner.mp rfl)).1]
        exact fine
    | calling n request =>
        rw [Place.Fine, State.message_congr (frame.inside (here.owner.mp rfl)).1]
        exact fine
    | printing n request place =>
        obtain ⟨buf, -, -, hdr⟩ := frame.inside (here.owner.mp rfl)
        obtain ⟨message, headed⟩ := fine
        refine ⟨(State.message_congr buf).trans message, fun none => ?_⟩
        rw [hdr none]
        exact headed (unconsoled none)
    | _ => trivial
  · intro inside
    obtain ⟨-, taken, printed, -⟩ := frame.inside (here.owner.mp inside)
    rw [taken, printed]
    exact here.accounts inside

theorem Place.busy_of_inside (inside : place.inside = true) : place.busy = true := by
  cases place with
  | locking => rfl
  | _ => exact inside

/-- No call is past its test, so no thread has the lock. -/
theorem Sound.unlocked (sound : Sound s) (quiet : s.busy = []) : s.gLock = none := by
  rcases lock : s.gLock with _ | u
  · rfl
  · have inside := (sound.threads u).owner.mpr lock
    have busy : u ∈ s.busy := (sound.threads u).busy.mpr (Place.busy_of_inside inside)
    rw [quiet] at busy
    cases busy

/-- The thread that has the lock takes a step: the others do not. -/
theorem Frame.of_owner (lock : s.gLock = some t) (other : u ≠ t)
    (busy : u ∈ s'.busy ↔ u ∈ s.busy) (lock' : s'.gLock = some t ∨ s'.gLock = none)
    (consoled : s'.consoled = s.consoled)
    : Frame s s' u := by
  have free : s.gLock ≠ some u := fun same => other (Option.some.inj (same.symm.trans lock))
  have free' : s'.gLock ≠ some u := by
    rcases lock' with owned | none
    · exact fun same => other (Option.some.inj (same.symm.trans owned))
    · rw [none]
      nofun
  exact
    { busy
      owner := iff_of_false free' free
      consoled := consoled.ge
      inside := fun owns => absurd owns free }

/-- A thread without the lock takes a step that leaves most things alone. -/
theorem Frame.of_aside (busy : s'.busy = s.busy) (lock : s'.gLock = s.gLock)
    (buf : s'.gLogBuf = s.gLogBuf) (taken : s'.taken = s.taken) (printed : s'.printed = s.printed)
    (consoled : s.consoled ≤ s'.consoled) (hdr : s'.consoled = 0 → s'.gLogHdr = s.gLogHdr)
    : Frame s s' u where
  busy := by rw [busy]
  owner := by rw [lock]
  consoled := consoled
  inside _ := ⟨buf, taken, printed, hdr⟩

/-- The log is brought up or down. -/
theorem Frame.of_quiet (lock : s.gLock = none) (lock' : s'.gLock = none) (busy : s'.busy = s.busy)
    (consoled : s'.consoled = s.consoled)
    : Frame s s' u where
  busy := by rw [busy]
  owner := by rw [lock, lock']
  consoled := consoled.ge
  inside owns := by rw [lock] at owns; cases owns

/-- A thread that is in no call past its test. -/
theorem Local.idle (out : t ∉ s.busy) (free : s.gLock ≠ some t) (idle : place.busy = false)
    (tag : place.TagFits) (consoled : place.consoles = true → 0 < s.consoled)
    : Local s t place := by
  have outside : ¬place.inside = true := by
    intro inside
    rw [Place.busy_of_inside inside] at idle
    cases idle
  refine
    { busy := iff_of_false out (by rw [idle]; nofun)
      owner := iff_of_false outside free
      tag, consoled
      fine := ?_
      accounts := fun inside => absurd inside outside }
  cases place with
  | formatting | calling | printing => cases idle
  | _ => trivial

theorem Local.out (here : Local s t place) (idle : place.busy = false)
    : t ∉ s.busy ∧ s.gLock ≠ some t := by
  constructor
  · intro member
    rw [here.busy.mp member] at idle
    cases idle
  · intro lock
    rw [Place.busy_of_inside (here.owner.mpr lock)] at idle
    cases idle

/-- What holds of a thread that has the lock. -/
theorem Sound.holder (sound : Sound s) (inside : (s.places t).inside = true)
    : s.gLock = some t
      ∧ t ∈ s.busy
      ∧ s.ready = true
      ∧ s.gLogBuf.usable = true
      ∧ (s.lowered = false → s.gInit = true) := by
  have member := (sound.threads t).busy.mpr (Place.busy_of_inside inside)
  have some : s.busy ≠ [] := List.ne_nil_of_mem member
  obtain ⟨ready, usable⟩ := sound.shared.up some
  exact ⟨(sound.threads t).owner.mp inside, member, ready, usable, (sound.shared.kept · some)⟩

variable [DecidableEq θ]

/-- A thread takes a step; what it does to the others is nothing. -/
theorem Sound.moved (sound : Sound s) (places : s'.places = Function.update s.places t place)
    (shared : Shared s') (here : Local s' t place) (frame : ∀ u ≠ t, Frame s s' u)
    : Sound s' := by
  refine ⟨shared, fun u => ?_⟩
  rw [places]
  rcases eq_or_ne u t with rfl | other
  · rw [Function.update_self]
    exact here
  · rw [Function.update_of_ne other]
    exact (sound.threads u).frame (frame u other)

-----------------------------------------------------------------------------------------
-- Threads without the lock
-----------------------------------------------------------------------------------------

/-- A thread in no call past its test takes a step and is in none afterwards. -/
theorem Sound.aside (sound : Sound s) (idle : (s.places t).busy = false)
    (places : s'.places = Function.update s.places t place) (idle' : place.busy = false)
    (tag : place.TagFits) (consoled : place.consoles = true → 0 < s'.consoled)
    (shared : Shared s') (frame : ∀ u, Frame s s' u)
    : Sound s' := by
  obtain ⟨out, free⟩ := (sound.threads t).out idle
  refine sound.moved places shared ?_ fun u _ => frame u
  refine Local.idle ?_ ?_ idle' tag consoled
  · rwa [(frame t).busy]
  · exact fun owns => free ((frame t).owner.mp owns)

theorem Shared.moveTo (shared : Shared s) : Shared (s.moveTo t place) :=
  ⟨shared.alive, shared.size, shared.string, shared.nodup, shared.up, shared.kept, shared.accounts,
    shared.whole, shared.headed⟩

omit [DecidableEq θ] in
/-- Of a place where nothing is printed to the console. -/
theorem unconsoled (unconsoles : place.consoles = false) (yes : place.consoles = true)
    : 0 < s.consoled :=
  absurd (unconsoles.symm.trans yes) Bool.false_ne_true

/-- Only the place of a thread changes. -/
theorem Sound.moveTo (sound : Sound s) (idle : (s.places t).busy = false)
    (idle' : place.busy = false) (tag : place.TagFits)
    (consoled : place.consoles = true → 0 < s.consoled)
    : Sound (s.moveTo t place) :=
  sound.aside idle rfl idle' tag consoled sound.shared.moveTo fun _ =>
    Frame.of_aside rfl rfl rfl rfl rfl le_rfl fun _ => rfl

theorem Sound.call {call : Call} (sound : Sound s) (outside : s.places t = .outside)
    (tag : (call.start : Place zone).TagFits)
    : Sound (s.moveTo t call.start) := by
  refine sound.moveTo (by rw [outside]; rfl) ?_ tag ?_
  · cases call <;> rfl
  · cases call <;> nofun

/-- `cl_console_prt` writes to the header, with no regard for the lock. -/
theorem Sound.console (sound : Sound s) {before after : Printing zone} {hdr : Buffer}
    (here : s.places t = .console request before) (size : hdr.length = 128) (string : 0 ∈ hdr)
    : Sound { s.moveTo t (.console request after) with gLogHdr := hdr } := by
  have tag := (sound.threads t).tag
  have consoled := (sound.threads t).consoled
  rw [here] at tag consoled
  have idle : (s.places t).busy = false := by
    rw [here]
    rfl
  refine sound.aside idle rfl rfl tag consoled ?_ fun u => ?_
  · have shared := sound.shared
    exact ⟨shared.alive, size, string, shared.nodup, shared.up, shared.kept, shared.accounts,
      shared.whole, shared.headed⟩
  · exact Frame.of_aside rfl rfl rfl rfl rfl le_rfl fun none =>
      absurd (none ▸ consoled rfl) (lt_irrefl 0)

theorem Sound.setMode (sound : Sound s) {mode : LogMode} (here : s.places t = .setting mode)
    : Sound (clSetMode s t mode) := by
  have shared := sound.shared
  have idle : (s.places t).busy = false := by
    rw [here]
    rfl
  cases mode <;>
  exact sound.aside idle rfl rfl trivial (unconsoled rfl)
    ⟨shared.alive, shared.size, shared.string, shared.nodup, shared.up, shared.kept,
      shared.accounts, shared.whole, shared.headed⟩
    fun _ => Frame.of_aside rfl rfl rfl rfl rfl le_rfl fun _ => rfl

-----------------------------------------------------------------------------------------
-- Bringing the log up and down
-----------------------------------------------------------------------------------------

/-- A step that is taken while no call is past its test. -/
theorem Sound.quiet (sound : Sound s) (quiet : s.busy = []) (idle : (s.places t).busy = false)
    (places : s'.places = Function.update s.places t place) (idle' : place.busy = false)
    (tag : place.TagFits) (unconsoles : place.consoles = false) (ended : s'.ended = false)
    (hdr : s'.gLogHdr = s.gLogHdr) (lock : s'.gLock = none) (busy : s'.busy = s.busy)
    (taken : s'.taken = s.taken) (printed : s'.printed = s.printed)
    (consoled : s'.consoled = s.consoled) (lowered : s.lowered = true → s'.lowered = true)
    : Sound s' := by
  have free := sound.unlocked quiet
  have shared := sound.shared
  have consoles (yes : place.consoles = true) : 0 < s'.consoled := by
    rw [unconsoles] at yes
    cases yes
  refine sound.aside idle places idle' tag consoles ?_ fun u =>
    Frame.of_quiet free lock busy consoled
  have nobody {P : Prop} (some : s'.busy ≠ []) : P := absurd (busy.trans quiet) some
  refine
    { alive := ended
      size := by rw [hdr]; exact shared.size
      string := by rw [hdr]; exact shared.string
      nodup := by rw [busy]; exact shared.nodup
      up := nobody
      kept := fun _ => nobody
      accounts := fun _ => by rw [taken, printed]; exact shared.accounts free
      whole := ?_
      headed := ?_ }
  · rw [printed]
    exact fun e member => (shared.whole e member).imp id fun implied none => lowered (implied none)
  · rw [consoled, printed]
    exact shared.headed

theorem Sound.init (sound : Sound s) {place : Init} (here : s.places t = .init place)
    {chance : Chance zone} (orderly : s.Orderly (.proceed t chance))
    : Sound (clLogInit s t chance place) := by
  have shared := sound.shared
  have idle : (s.places t).busy = false := by
    rw [here]
    rfl
  rw [State.Orderly, here] at orderly
  cases place with
  | testing =>
      rw [clLogInit]
      split <;> exact sound.moveTo idle rfl trivial (unconsoled rfl)
  | mutex =>
      have quiet : s.busy = [] := List.isEmpty_iff.mp orderly
      rw [clLogInit]
      split
      · exact sound.quiet quiet idle rfl rfl trivial rfl shared.alive rfl rfl rfl rfl rfl rfl id
      · exact sound.moveTo idle rfl trivial (unconsoled rfl)
  | malloc =>
      have quiet : s.busy = [] := List.isEmpty_iff.mp orderly
      rw [clLogInit]
      have free := sound.unlocked quiet
      split <;>
      exact sound.quiet quiet idle rfl rfl trivial rfl shared.alive rfl free rfl rfl rfl rfl id
  | flag =>
      exact sound.aside idle rfl rfl trivial (unconsoled rfl)
        ⟨shared.alive, shared.size, shared.string, shared.nodup, shared.up, fun _ _ => rfl,
          shared.accounts, shared.whole, shared.headed⟩
        fun _ => Frame.of_aside rfl rfl rfl rfl rfl le_rfl fun _ => rfl

theorem Sound.deinit (sound : Sound s) {place : Deinit} (here : s.places t = .deinit place)
    {chance : Chance zone} (orderly : s.Orderly (.proceed t chance))
    : Sound (clLogDeinit s t place) := by
  have shared := sound.shared
  have idle : (s.places t).busy = false := by
    rw [here]
    rfl
  rw [State.Orderly, here] at orderly
  cases place with
  | flag =>
      exact sound.aside idle rfl rfl trivial (unconsoled rfl)
        ⟨shared.alive, shared.size, shared.string, shared.nodup, shared.up,
          fun up => absurd up.symm Bool.false_ne_true, shared.accounts,
          fun e member => ⟨(shared.whole e member).1, fun _ => rfl⟩, shared.headed⟩
        fun _ => Frame.of_aside rfl rfl rfl rfl rfl le_rfl fun _ => rfl
  | free =>
      obtain ⟨quiet, once⟩ := orderly
      have quiet : s.busy = [] := List.isEmpty_iff.mp quiet
      have free := sound.unlocked quiet
      rw [clLogDeinit]
      split
      · exact sound.moveTo idle rfl trivial (unconsoled rfl)
      · rename_i dangling
        rw [dangling] at once
        cases once
      · exact sound.quiet quiet idle rfl rfl trivial rfl shared.alive rfl free rfl rfl rfl rfl id
  | null | mutex =>
      have quiet : s.busy = [] := List.isEmpty_iff.mp orderly
      have free := sound.unlocked quiet
      exact sound.quiet quiet idle rfl rfl trivial rfl shared.alive rfl free rfl rfl rfl rfl id

-----------------------------------------------------------------------------------------
-- The thread with the lock
-----------------------------------------------------------------------------------------

/-- The thread goes on with its message. -/
theorem Sound.goOn (sound : Sound s) (inside : (s.places t).inside = true)
    (inside' : place.inside = true) (pending : place.pending = (s.places t).pending)
    (tag : (s.places t).TagFits → place.TagFits) (unconsoles : place.consoles = false)
    (places : s'.places = Function.update s.places t place) (shared : Shared s')
    (lock : s'.gLock = s.gLock) (busy : s'.busy = s.busy) (taken : s'.taken = s.taken)
    (printed : s'.printed = s.printed) (consoled : s'.consoled = s.consoled) (fine : place.Fine s')
    : Sound s' := by
  obtain ⟨owns, member, -⟩ := sound.holder inside
  have here := sound.threads t
  refine sound.moved places shared ?_ fun u other =>
    Frame.of_owner owns other (by rw [busy]) (Or.inl (lock.trans owns)) consoled
  refine
    { busy := by rw [busy]; exact iff_of_true member (Place.busy_of_inside inside')
      owner := iff_of_true inside' (lock.trans owns)
      tag := tag here.tag
      consoled := fun yes => by rw [unconsoles] at yes; cases yes
      fine
      accounts := fun _ => ?_ }
  rw [taken, printed, pending]
  exact here.accounts inside

/-- It writes to the header. -/
theorem Sound.head (sound : Sound s) {n : Nat} {before after : Printing zone} {hdr : Buffer}
    (here : s.places t = .printing n request before) (size : hdr.length = 128) (string : 0 ∈ hdr)
    (headed : s.consoled = 0 → after.Headed hdr request)
    : Sound { s.moveTo t (.printing n request after) with gLogHdr := hdr } := by
  have shared := sound.shared
  have fine := (sound.threads t).fine
  rw [here] at fine
  exact sound.goOn (by rw [here]; rfl) rfl (by rw [here]; rfl) (by rw [here]; exact id) rfl rfl
    ⟨shared.alive, size, string, shared.nodup, shared.up, shared.kept, shared.accounts,
      shared.whole, shared.headed⟩
    rfl rfl rfl rfl rfl ⟨fine.1, headed⟩

/-- The print function is through with the message. -/
theorem Sound.note (sound : Sound s) {n : Nat} {shown : Option Line}
    (pending : (s.places t).pending = [(n, request)])
    (whole : (Entry.mk n request shown).Whole)
    (lowered : shown = none → s.lowered = true)
    (headed : s.consoled = 0 → (Entry.mk n request shown).Headed zone)
    : Sound (s.note t n request shown) := by
  have inside : (s.places t).inside = true := by
    cases place : s.places t <;> rw [place] at pending <;> first | rfl | cases pending
  obtain ⟨owns, member, -⟩ := sound.holder inside
  have shared := sound.shared
  have accounts := (sound.threads t).accounts inside
  rw [pending] at accounts
  have through : s.taken = (s.printed ++ [Entry.mk n request shown]).map Entry.call := by
    rw [List.map_append]
    exact accounts
  refine sound.moved (rfl : _ = Function.update s.places t .unlocking) ?_ ?_ fun u other =>
    Frame.of_owner owns other Iff.rfl (Or.inl owns) rfl
  · refine
      ⟨shared.alive, shared.size, shared.string, shared.nodup, shared.up, shared.kept,
        fun _ => through, ?_, ?_⟩
    · intro e member
      rcases List.mem_append.mp member with old | new
      · exact shared.whole e old
      · obtain rfl := List.mem_singleton.mp new
        exact ⟨whole, lowered⟩
    · intro none e member
      rcases List.mem_append.mp member with old | new
      · exact shared.headed none e old
      · obtain rfl := List.mem_singleton.mp new
        exact headed none
  · exact
      { busy := iff_of_true member rfl
        owner := iff_of_true rfl owns
        tag := trivial
        consoled := nofun
        fine := trivial
        accounts := fun _ => through.trans (List.append_nil _).symm }

/-- The test is passed: the log is up. -/
theorem Sound.admit (sound : Sound s) (here : s.places t = .testing request) (up : s.Up)
    : Sound {
        s.moveTo t (.locking s.calls request) with
        calls := s.calls + 1
        busy := t :: s.busy
      } := by
  have idle : (s.places t).busy = false := by
    rw [here]
    rfl
  obtain ⟨out, free⟩ := (sound.threads t).out idle
  have tag := (sound.threads t).tag
  rw [here] at tag
  have shared := sound.shared
  refine sound.moved (rfl : _ = Function.update s.places t (.locking s.calls request)) ?_ ?_
    fun u other => ?_
  · exact
      ⟨shared.alive, shared.size, shared.string, List.nodup_cons.mpr ⟨out, shared.nodup⟩,
        fun _ => ⟨up.1, up.2.2⟩, fun _ _ => up.2.1, shared.accounts, shared.whole, shared.headed⟩
  · exact
      { busy := iff_of_true List.mem_cons_self rfl
        owner := iff_of_false nofun free
        tag
        consoled := nofun
        fine := trivial
        accounts := nofun }
  · exact
      { busy := by rw [List.mem_cons, or_iff_right other]
        owner := Iff.rfl
        consoled := le_rfl
        inside := fun _ => ⟨rfl, rfl, rfl, fun _ => rfl⟩ }

theorem Pointer.usable_iff {buf : Pointer}
    : buf.usable = true ↔ ∃ bytes, buf = .block bytes ∧ bytes.length = logBufSz := by
  cases buf <;> simp [Pointer.usable]

/-- The lock is taken. -/
theorem Sound.lock (sound : Sound s) {n : Nat} (here : s.places t = .locking n request)
    (free : s.gLock = none)
    : Sound {
        s.moveTo t (.formatting n request 0) with
        gLock := some t
        taken := s.taken ++ [(n, request)]
      } := by
  have member : t ∈ s.busy := (sound.threads t).busy.mpr (by rw [here]; rfl)
  have tag := (sound.threads t).tag
  rw [here] at tag
  have shared := sound.shared
  obtain ⟨bytes, buf, -⟩ :=
    Pointer.usable_iff.mp (shared.up (List.ne_nil_of_mem member)).2
  refine sound.moved (rfl : _ = Function.update s.places t (.formatting n request 0)) ?_ ?_
    fun u other => ?_
  · exact
      ⟨shared.alive, shared.size, shared.string, shared.nodup, shared.up, shared.kept, nofun,
        shared.whole, shared.headed⟩
  · exact
      { busy := iff_of_true member rfl
        owner := iff_of_true rfl rfl
        tag
        consoled := nofun
        fine := ⟨bytes, buf, Nat.zero_le _, rfl⟩
        accounts := fun _ => by rw [shared.accounts free]; rfl }
  · exact
      { busy := Iff.rfl
        owner := by
          rw [free]
          exact iff_of_false (fun same => other (Option.some.inj same).symm) nofun
        consoled := le_rfl
        inside := fun owns => by rw [free] at owns; cases owns }

/-- The lock is given back. -/
theorem Sound.unlock (sound : Sound s) (here : s.places t = .unlocking)
    : Sound { s.moveTo t .outside with gLock := none, busy := s.busy.erase t } := by
  have inside : (s.places t).inside = true := by
    rw [here]
    rfl
  obtain ⟨owns, member, -⟩ := sound.holder inside
  have accounts := (sound.threads t).accounts inside
  rw [here] at accounts
  have shared := sound.shared
  have some (left : s.busy.erase t ≠ []) : s.busy ≠ [] := List.ne_nil_of_mem member
  refine sound.moved (rfl : _ = Function.update s.places t .outside) ?_ ?_ fun u other => ?_
  · exact
      ⟨shared.alive, shared.size, shared.string, shared.nodup.erase t, shared.up ∘ some,
        fun up left => shared.kept up (some left), fun _ => accounts.trans (List.append_nil _),
        shared.whole, shared.headed⟩
  · exact Local.idle shared.nodup.not_mem_erase nofun rfl trivial nofun
  · exact Frame.of_owner owns other (List.mem_erase_of_ne other) (Or.inr rfl) rfl

theorem Request.length_cut : request.cut.length ≤ logBufSz - 2 :=
  List.length_take_le _ _

theorem Request.zero_notMem_cut : 0 ∉ request.cut :=
  fun member => request.text_nonzero (List.mem_of_mem_take member)

/-- One more byte of the message is in the buffer. -/
theorem take_set {bytes : Buffer} {i : Nat} (inside : i < request.cut.length)
    (room : i < bytes.length) (written : bytes.take i = request.cut.take i)
    : (bytes.set i (request.cut.getD i 0)).take (i + 1) = request.cut.take (i + 1) := by
  rw [List.take_add_one, List.take_add_one, List.take_set_of_le (Nat.le_refl i), written,
    List.getElem?_set_self room, List.getElem?_eq_getElem inside, List.getD_eq_getElem?_getD,
    List.getElem?_eq_getElem inside]
  rfl

/-- With its terminator the message is the string in the buffer. -/
theorem Request.str_set (request : Request) {bytes : Buffer}
    (room : request.cut.length < bytes.length)
    (written : bytes.take request.cut.length = request.cut)
    : str (bytes.set request.cut.length 0) 0 = some request.cut := by
  refine Holds.str ⟨request.zero_notMem_cut, bytes.drop (request.cut.length + 1), ?_⟩
  rw [List.drop_zero, List.set_eq_take_append_cons_drop, if_pos room, written]

theorem State.store_eq {bytes : Buffer} {i : Nat} {b : UInt8} (buf : s.gLogBuf = .block bytes)
    (room : i < bytes.length)
    : s.store t place i b = { s.moveTo t place with gLogBuf := .block (bytes.set i b) } := by
  simp only [State.store, buf, put, if_pos room]

/-- `vsnprintf` goes on. -/
theorem Sound.format (sound : Sound s) (chance : Chance zone) {n i : Nat}
    (here : s.places t = .formatting n request i)
    : ∃ s', clLog s t chance (.formatting n request i) = some s' ∧ Sound s' := by
  have inside : (s.places t).inside = true := by
    rw [here]
    rfl
  obtain ⟨-, -, -, usable, -⟩ := sound.holder inside
  obtain ⟨bytes, buf, size⟩ := Pointer.usable_iff.mp usable
  have fine := (sound.threads t).fine
  rw [here] at fine
  obtain ⟨bytes', buf', within, written⟩ := fine
  obtain rfl : bytes = bytes' := Pointer.block.inj (buf.symm.trans buf')
  have shared := sound.shared
  have room : i < bytes.length := by
    have length := request.length_cut
    rw [size]
    rw [logBufSz] at length ⊢
    omega
  have usable' (b : UInt8) : (Pointer.block (bytes.set i b)).usable = true :=
    Pointer.usable_iff.mpr ⟨_, rfl, List.length_set.trans size⟩
  have shared' (place : Place zone) (b : UInt8)
      : Shared { s.moveTo t place with gLogBuf := .block (bytes.set i b) } :=
    ⟨shared.alive, shared.size, shared.string, shared.nodup,
      fun some => ⟨(shared.up some).1, usable' b⟩, shared.kept, shared.accounts, shared.whole,
      shared.headed⟩
  rw [clLog]
  split
  · rename_i more
    refine ⟨_, rfl, ?_⟩
    rw [State.store_eq buf room]
    exact sound.goOn inside rfl (by rw [here]; rfl) (by rw [here]; exact id) rfl rfl
      (shared' _ _) rfl rfl rfl rfl rfl ⟨_, rfl, more, take_set more room written⟩
  · rename_i last
    obtain rfl : i = request.cut.length := Nat.le_antisymm within (Nat.not_lt.mp last)
    refine ⟨_, rfl, ?_⟩
    rw [State.store_eq buf room]
    rw [List.take_length] at written
    exact sound.goOn inside rfl (by rw [here]; rfl) (by rw [here]; exact id) rfl rfl
      (shared' _ _) rfl rfl rfl rfl rfl (request.str_set room written)

end Libccll.Log
