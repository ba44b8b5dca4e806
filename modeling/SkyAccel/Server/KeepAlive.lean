import SkyAccel.Lib.Lines
import SkyAccel.Lib.Run
import SkyAccel.Server.Request

/-!
# Requests on a connection that is kept alive

`handleConnectionKeepAlive` of `server/tcp-server.go`: each turn of its loop makes a new
`bufio.Reader`, reads up to a newline and passes what it read to `AddToBatch`. A read may
bring more than the line, and what the reader holds behind it is lost with the reader.

The requests are the first lines of the client's stream as long as no turn but the last
leaves bytes in its reader (`requests_are_lines`); once one does, the client's next bytes
can make a request that is none of its lines.

The field `taken` is history.
-/

namespace SkyAccel.Server.KeepAlive

open Lines (lines IsLine)

def newline : UInt8 := 10

/-- The size of the buffer of `bufio.NewReader`. -/
def bufferSize : Nat := 4096

/-- A reader inside `ReadBytes`: the full buffers collected so far, and what is buffered. -/
structure Reader where
  full : List UInt8
  buf : List UInt8
  deriving DecidableEq

def newReader : Reader := ⟨[], []⟩

/-- Where the loop stands: it reads a line; it serves the line `data`, with `left` still in
the reader; the connection is closed. -/
inductive Phase
  | reading (r : Reader)
  | serving (data left : List UInt8)
  | closed
  deriving DecidableEq

structure State where
  taken : List UInt8
  phase : Phase
  added : List (List UInt8)

def init : State := ⟨[], .reading newReader, []⟩

/-- `ReadSlice` after a read: the line if the buffer has its end; a full buffer without one
is put aside. -/
def Reader.scan (r : Reader) : Phase :=
  if newline ∈ r.buf then
    .serving (r.full ++ (r.buf.takeWhile (· ≠ newline) ++ [newline]))
      (r.buf.dropWhile (· ≠ newline)).tail
  else if bufferSize ≤ r.buf.length then .reading ⟨r.full ++ r.buf, []⟩
  else .reading r

/-- A read of the connection brings some bytes or fails, as it does at the end of the stream
and when the deadline of the connection passes. For a line there may be no route, and after
the line is served the deadline may have passed. -/
inductive Event
  | read (chunk : List UInt8)
  | fail
  | noRoute
  | add (expired : Bool)

def State.next (s : State) : Event → Option State
  | .read chunk =>
    match s.phase with
    | .reading r =>
      if r.buf.length + chunk.length ≤ bufferSize then
        some { s with taken := s.taken ++ chunk, phase := Reader.scan ⟨r.full, r.buf ++ chunk⟩ }
      else none
    | _ => none
  | .fail =>
    match s.phase with
    | .reading _ => some { s with phase := .closed }
    | _ => none
  | .noRoute =>
    match s.phase with
    | .serving _ _ => some { s with phase := .closed }
    | _ => none
  | .add expired =>
    match s.phase with
    | .serving data _ =>
      if data.length = 0 then some { s with phase := .closed }
      else some { s with
        added := s.added ++ [data]
        phase := if expired then .closed else .reading newReader }
    | _ => none

/-- What the reader holds behind the line. -/
def Phase.left : Phase → List UInt8
  | .serving _ left => left
  | _ => []

/-- The reader that the loop drops when it goes on holds no bytes. -/
def DropsNothing (s : State) : Event → Prop
  | .add false => s.phase.left = []
  | _ => True

instance (s : State) : ∀ e, Decidable (DropsNothing s e)
  | .add false => inferInstanceAs (Decidable (s.phase.left = []))
  | .add true => .isTrue trivial
  | .read _ => .isTrue trivial
  | .fail => .isTrue trivial
  | .noRoute => .isTrue trivial

/-! ## Steps -/

section
variable {s s' : State} {e : Event}

theorem next_cases (h : s.next e = some s') :
    (∃ r chunk, e = .read chunk ∧ s.phase = .reading r ∧
      s' = { s with taken := s.taken ++ chunk, phase := Reader.scan ⟨r.full, r.buf ++ chunk⟩ }) ∨
    s' = { s with phase := .closed } ∨
    (∃ data left expired, e = .add expired ∧ s.phase = .serving data left ∧ data ≠ [] ∧
      s' = { s with
        added := s.added ++ [data]
        phase := if expired then .closed else .reading newReader }) := by
  cases e with
  | read chunk =>
    simp only [State.next] at h
    split at h
    · rename_i r reading
      split at h
      · exact .inl ⟨r, chunk, rfl, reading, (Option.some.inj h).symm⟩
      · cases h
    · cases h
  | fail =>
    simp only [State.next] at h
    split at h
    · exact .inr (.inl (Option.some.inj h).symm)
    · cases h
  | noRoute =>
    simp only [State.next] at h
    split at h
    · exact .inr (.inl (Option.some.inj h).symm)
    · cases h
  | add expired =>
    simp only [State.next] at h
    split at h
    · rename_i data left serving
      split at h
      · exact .inr (.inl (Option.some.inj h).symm)
      · rename_i some
        have some : data ≠ [] := by simpa using some
        exact .inr (.inr ⟨data, left, expired, rfl, serving, some, (Option.some.inj h).symm⟩)
    · cases h

/-- What a turn has read: no newline yet, or a line and what is left in the reader. -/
def Phase.Holds (turn : List UInt8) : Phase → Prop
  | .reading r => turn = r.full ++ r.buf ∧ newline ∉ turn
  | .serving data left => turn = data ++ left ∧ IsLine newline data
  | .closed => True

theorem Reader.scan_holds {r : Reader} (free : newline ∉ r.full) :
    r.scan.Holds (r.full ++ r.buf) := by
  unfold Reader.scan
  split
  · rename_i there
    obtain ⟨⟨l, without, line⟩, whole⟩ := Lines.eq_line_append there
    refine ⟨?_, r.full ++ l, ?_, ?_⟩
    · rw [List.append_assoc, ← whole]
    · simp [free, without]
    · rw [line, List.append_assoc]
  · rename_i without
    split
    · simp [Phase.Holds, free, without]
    · simp [Phase.Holds, free, without]

/-- The requests so far are lines, and the stream is these and what the turn has read. -/
structure Served (s : State) : Prop where
  all : ∀ x ∈ s.added, IsLine newline x
  taken : ∃ turn, s.taken = s.added.flatten ++ turn ∧ s.phase.Holds turn

theorem Served.init : Served init := ⟨nofun, [], rfl, rfl, List.not_mem_nil⟩

theorem Served.step (h : Served s) (drops : DropsNothing s e) (moved : s.next e = some s') :
    Served s' := by
  obtain ⟨all, turn, taken, holds⟩ := h
  rcases next_cases moved with ⟨r, chunk, rfl, reading, rfl⟩ | rfl |
    ⟨data, left, expired, rfl, serving, some, rfl⟩
  · rw [reading] at holds
    obtain ⟨rfl, free⟩ := holds
    refine ⟨all, r.full ++ (r.buf ++ chunk), ?_, Reader.scan_holds fun inside => ?_⟩
    · simp [taken]
    · exact free (List.mem_append_left _ inside)
  · exact ⟨all, turn, taken, trivial⟩
  · rw [serving] at holds
    obtain ⟨rfl, line⟩ := holds
    refine ⟨fun x hx => ?_, left, by simp [taken], ?_⟩
    · rcases List.mem_append.mp hx with hx | hx
      · exact all x hx
      · rw [List.mem_singleton.mp hx]
        exact line
    · cases expired with
      | true => trivial
      | false =>
        rw [DropsNothing, serving] at drops
        rw [show left = [] from drops]
        exact ⟨rfl, List.not_mem_nil⟩

theorem Served.isPrefix (h : Served s) (rest : List UInt8) :
    s.added <+: lines newline (s.taken ++ rest) := by
  obtain ⟨turn, taken, -⟩ := h.taken
  rw [taken, List.append_assoc, Lines.lines_flatten_append h.all]
  exact List.prefix_append _ _

/-- A turn serves what `ReadBytes` finds in all that the turn has read, however it was cut. -/
theorem readBytes_turn {turn data left : List UInt8} (h : (Phase.serving data left).Holds turn) :
    readBytes newline turn = some data := by
  obtain ⟨rfl, l, free, rfl⟩ := h
  rw [readBytes, if_pos (by simp), List.append_assoc]
  exact congrArg (fun l => some (l ++ [newline])) (Lines.takeWhile_line free left).1

/-! ## Bytes that are dropped -/

/-- A turn that reads one short line. -/
theorem serve_short {added : List (List UInt8)} {taken line : List UInt8} (short : line.length ≤ 2)
    (isLine : IsLine newline line) :
    Run (Moves State.next) (fun _ _ => True) ⟨taken, .reading newReader, added⟩
      ⟨taken ++ line, .closed, added ++ [line]⟩ := by
  obtain ⟨l, free, rfl⟩ := isLine
  have room : newReader.buf.length + (l ++ [newline]).length ≤ bufferSize := by
    simp only [newReader, bufferSize, List.length_nil]
    omega
  have scanned : Reader.scan ⟨[], l ++ [newline]⟩ = .serving (l ++ [newline]) [] := by
    obtain ⟨before, behind⟩ := Lines.takeWhile_line free []
    rw [Reader.scan, if_pos (by simp), before, behind]
    rfl
  have read : Moves State.next ⟨taken, .reading newReader, added⟩ (.read (l ++ [newline]))
      ⟨taken ++ (l ++ [newline]), .serving (l ++ [newline]) [], added⟩ := by
    simp only [Moves, State.next, if_pos room]
    rw [← scanned]
    rfl
  refine (Run.single trivial read).next (e := .add true) trivial ?_
  simp [Moves, State.next]

/-- Behind bytes that are lost, some short line is not the next line of the stream. -/
theorem exists_other_line {left : List UInt8} (some : left ≠ []) :
    ∃ line, line.length ≤ 2 ∧ IsLine newline line ∧ ¬ [line] <+: lines newline (left ++ line) := by
  have blank : IsLine newline [newline] := ⟨[], List.not_mem_nil, rfl⟩
  by_cases there : newline ∈ left
  · -- the next line is already among the bytes lost
    obtain ⟨first, whole⟩ := Lines.eq_line_append there
    generalize left.takeWhile (· ≠ newline) ++ [newline] = x at first whole
    have next : ∀ line, [line] <+: lines newline (left ++ line) → line = x := by
      intro line isNext
      rw [whole, List.append_assoc, Lines.lines_line_append first] at isNext
      exact (List.cons_prefix_cons.mp isNext).1
    by_cases same : x = [newline]
    · refine ⟨[0, newline], le_rfl, ⟨[0], by decide, rfl⟩, fun isNext => ?_⟩
      exact absurd ((next _ isNext).trans same) (by decide)
    · exact ⟨[newline], by decide, blank, fun isNext => same (next _ isNext).symm⟩
  · -- the next line starts with the bytes lost
    have line : IsLine newline (left ++ [newline]) := ⟨left, there, rfl⟩
    refine ⟨[newline], by decide, blank, fun isNext => ?_⟩
    have only := Lines.lines_line_append line []
    rw [List.append_nil] at only
    rw [only] at isNext
    have same := (List.cons_prefix_cons.mp isNext).1
    exact some (by simpa using same)

/-- A turn that drops bytes can be followed by a request that is no line of the stream. -/
theorem Served.drops (h : Served s) (dropped : ¬ DropsNothing s (.add false))
    (moved : s.next (.add false) = some s') :
    ∃ s'', Run (Moves State.next) (fun _ _ => True) s' s'' ∧
      ¬ s''.added <+: lines newline s''.taken := by
  obtain ⟨all, turn, taken, holds⟩ := h
  obtain ⟨data, left, serving⟩ : ∃ data left, s.phase = .serving data left := by
    cases here : s.phase with
    | serving data left => exact ⟨data, left, rfl⟩
    | _ => simp [State.next, here] at moved
  rw [DropsNothing, serving] at dropped
  rw [serving] at holds
  obtain ⟨rfl, line⟩ := holds
  have some : left ≠ [] := dropped
  obtain ⟨other, short, isLine, wrong⟩ := exists_other_line some
  have ne : data.length ≠ 0 := by
    obtain ⟨l, -, rfl⟩ := line
    simp
  simp only [State.next, serving, if_neg ne, Bool.false_eq_true, if_false] at moved
  obtain rfl := Option.some.inj moved
  refine ⟨_, serve_short short isLine, fun isNext => wrong ?_⟩
  have lines : ∀ x ∈ s.added ++ [data], IsLine newline x := by
    simpa [or_imp, forall_and] using ⟨all, line⟩
  dsimp only at isNext
  rw [taken] at isNext
  have same : s.added.flatten ++ (data ++ left) ++ other =
      (s.added ++ [data]).flatten ++ (left ++ other) := by simp
  rw [same, Lines.lines_flatten_append lines, List.prefix_append_right_inj] at isNext
  exact isNext

end

/-- The requests are the first lines of the stream, whatever the client sends later, in
every run in which the loop never goes on with bytes left in the reader that it drops. When
it does, one more turn can add a request that is not the next line. -/
theorem requests_are_lines {s : State} (run : Run (Moves State.next) DropsNothing init s) :
    (∀ rest, s.added <+: lines newline (s.taken ++ rest)) ∧
      ∀ s', ¬ DropsNothing s (.add false) → s.next (.add false) = some s' →
        ∃ s'', Run (Moves State.next) (fun _ _ => True) s' s'' ∧
          ¬ s''.added <+: lines newline s''.taken := by
  have served : Served s :=
    run.invariant (fun _ _ _ h drops moved => h.step drops moved) Served.init
  exact ⟨served.isPrefix, fun _ => served.drops⟩

/-- Two lines, the first in two pieces. -/
theorem requests_are_lines_two :
    ∃ s, Run (Moves State.next) DropsNothing init s ∧ s.added = [[97, 10], [98, 10]] ∧
      s.added <+: lines newline (s.taken ++ [99]) := by
  have ran : ∃ s, Run (Moves State.next) DropsNothing init s ∧
      s.added = [[97, 10], [98, 10]] := by
    apply Run.exists_of_checked [.read [97], .read [10], .add false, .read [98, 10], .add false]
    decide +kernel
  obtain ⟨s, run, added⟩ := ran
  exact ⟨s, run, added, (requests_are_lines run).1 [99]⟩

/-- Two lines in one read: the second is lost, and the third is served after the first. -/
theorem second_line_lost :
    ∃ s, Run (Moves State.next) (fun _ _ => True) init s ∧
      s.taken = [97, 10, 98, 10, 99, 10] ∧ s.added = [[97, 10], [99, 10]] ∧
      lines newline s.taken = [[97, 10], [98, 10], [99, 10]] ∧
      ¬ s.added <+: lines newline s.taken := by
  have ran : ∃ s, Run (Moves State.next) (fun _ _ => True) init s ∧
      s.taken = [97, 10, 98, 10, 99, 10] ∧ s.added = [[97, 10], [99, 10]] := by
    apply Run.exists_of_checked
      [.read [97, 10, 98, 10], .add false, .read [99, 10], .add false]
    decide +kernel
  obtain ⟨s, run, taken, added⟩ := ran
  refine ⟨s, run, taken, added, ?_, ?_⟩
  · rw [taken]
    decide +kernel
  · rw [taken, added]
    decide +kernel

end SkyAccel.Server.KeepAlive
