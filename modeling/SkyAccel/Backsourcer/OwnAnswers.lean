import SkyAccel.Backsourcer.Ownership
import SkyAccel.Lib.Lines

/-!
# Whose answer a caller gets

`DoRequest` of `tcp_pool.go` writes a request to a connection that others have used before,
and takes the next line as its response. Nothing in a line says which request it answers, and
a reader that has read more than the line is thrown away with the rest.

Where the origin answers each request on a connection with one line, every caller gets the
answer to its own request: a connection goes back to the pool only when all that the origin
has to say on it was said and read (`Paired`).
-/

namespace SkyAccel.Backsourcer

open scoped List

/-- One side of a connection: the calls whose requests were written, in order, what the origin
has sent and how much of it was read. -/
structure Wire where
  asked : List Nat
  sent : List UInt8
  read : Nat
  deriving DecidableEq

def Wire.blank : Wire := ⟨[], [], 0⟩

/-- Where a call of `DoRequest` stands that has a connection: before the write, in
`ReadString` with what it has so far, or about to put the connection back. -/
inductive Reader
  | fresh
  | reading (buf : List UInt8)
  | answered (line : List UInt8)
  | failed
  deriving DecidableEq

namespace Reader

/-- What `Put` is called with, when it is. -/
def healthy : Reader → Option Bool
  | .answered _ => some true
  | .failed => some false
  | _ => none

/-- `ReadString('\n')`, as far as it comes with the bytes in the buffer. -/
def readString (buf : List UInt8) : Reader :=
  if 10 ∈ buf then .answered (buf.takeWhile (· ≠ 10) ++ [10]) else .reading buf

end Reader

/-- The callers of the pool with their connections. -/
structure Traffic where
  base : System
  readers : Nat → Reader
  wires : Nat → Wire

/-- `origin c bytes` is the other end of connection `c`, and `fill i n` one `Read` of call `i`,
which gives it at most `n` bytes. -/
inductive TrafficEvent
  | pool (e : Event)
  | write (i : Nat) (ok : Bool)
  | origin (c : Nat) (bytes : List UInt8)
  | fill (i n : Nat)
  | fail (i : Nat)

namespace Traffic

def init (maxIdle maxLifetime : Int) : Traffic :=
  ⟨.init maxIdle maxLifetime, fun _ => .fresh, fun _ => .blank⟩

def next (s : Traffic) : TrafficEvent → Option Traffic
  | .pool (.get addr clock) =>
    (s.base.next (.get addr clock)).map fun base =>
      { s with base := base, readers := Function.update s.readers s.base.calls.length .fresh }
  | .pool (.dialTimeout i ok) =>
    (s.base.next (.dialTimeout i ok)).map fun base =>
      { s with base := base, wires := Function.update s.wires s.base.dialled.length .blank }
  | .pool (.put i healthy created lastUsed) =>
    if (s.readers i).healthy = some healthy then
      (s.base.next (.put i healthy created lastUsed)).map fun base => { s with base := base }
    else none
  | .pool (.cleanup c now) =>
    (s.base.next (.cleanup c now)).map fun base => { s with base := base }
  | .pool (.close c) => (s.base.next (.close c)).map fun base => { s with base := base }
  | .write i ok =>
    match s.base.calls[i]?, s.readers i with
    | some (.holding _ c), .fresh =>
      if ok then
        some { s with
          readers := Function.update s.readers i (.reading [])
          wires := Function.update s.wires c
            { s.wires c with asked := (s.wires c).asked ++ [i] } }
      else some { s with readers := Function.update s.readers i .failed }
    | _, _ => none
  | .origin c bytes =>
    some { s with
      wires := Function.update s.wires c { s.wires c with sent := (s.wires c).sent ++ bytes } }
  | .fill i n =>
    match s.base.calls[i]?, s.readers i with
    | some (.holding _ c), .reading buf =>
      let got := ((s.wires c).sent.drop (s.wires c).read).take n
      if got = [] then none
      else some { s with
        readers := Function.update s.readers i (.readString (buf ++ got))
        wires := Function.update s.wires c
          { s.wires c with read := (s.wires c).read + got.length } }
    | _, _ => none
  | .fail i =>
    match s.base.calls[i]?, s.readers i with
    | some (.holding _ _), .reading _ =>
      some { s with readers := Function.update s.readers i .failed }
    | _, _ => none

/-- What the origin has said on a connection is as much as it likes of one answer for each
request, in their order. -/
def Answers (answer : Nat → List UInt8) (w : Wire) : Prop :=
  w.sent <+: (w.asked.map answer).flatten

/-- The origin sends nothing but its answers. -/
def Regular (answer : Nat → List UInt8) (s : Traffic) : TrafficEvent → Prop
  | .origin c bytes => Answers answer { s.wires c with sent := (s.wires c).sent ++ bytes }
  | _ => True

instance (answer : Nat → List UInt8) (s : Traffic) (e : TrafficEvent) :
    Decidable (s.Regular answer e) := by
  cases e <;> unfold Regular <;> first | infer_instance | (unfold Answers; infer_instance)

/-! ## What every step keeps -/

/-- All was said that was asked for, and read. -/
structure Clean (answer : Nat → List UInt8) (w : Wire) : Prop where
  said : w.sent = (w.asked.map answer).flatten
  read : w.read = w.sent.length

/-- What the connection of a call looks like while the call has it. -/
def Fits (answer : Nat → List UInt8) (i : Nat) (w : Wire) : Reader → Prop
  | .reading buf => 10 ∉ buf ∧ w.read ≤ w.sent.length ∧ ∃ before, w.asked = before ++ [i] ∧
      w.sent.take w.read = (before.map answer).flatten ++ buf
  | .failed => True
  | _ => Clean answer w

structure Paired (answer : Nat → List UInt8) (maxIdle : Int) (s : Traffic) : Prop where
  owned : s.base.Owned maxIdle
  told : ∀ c, Answers answer (s.wires c)
  idle : ∀ c ∈ s.base.pool.idleConns, Clean answer (s.wires c)
  held : ∀ i c, s.base.Holds i c → Fits answer i (s.wires c) (s.readers i)
  waiting : ∀ i addr, s.base.calls[i]? = some (.dialling addr) → s.readers i = .fresh
  busy : ∀ i buf, s.readers i = .reading buf → ∃ c, s.base.Holds i c
  right : ∀ i line, s.readers i = .answered line → line = answer i

end Traffic

/-! ## Who has a connection -/

namespace System

variable {maxIdle : Int} {s s' : System} {i j c : Nat}

theorem Owned.holds_unique (h : Owned maxIdle s) (first : s.Holds i c) (second : s.Holds j c) :
    i = j := by
  obtain ⟨addr, at_i⟩ := first
  obtain ⟨addr', at_j⟩ := second
  have once : (s.calls.flatMap Call.conns).Nodup := by
    have all : (s.pool.idleConns + s.heldConns + s.closed).Nodup := by
      rw [h.conserved]
      exact Multiset.nodup_range _
    exact Multiset.coe_nodup.mp (Multiset.nodup_add.mp (Multiset.nodup_add.mp all).1).2.1
  have apart := List.pairwise_iff_getElem.mp (List.nodup_flatMap.mp once).2
  obtain ⟨inside_i, is_i⟩ := List.getElem?_eq_some_iff.mp at_i
  obtain ⟨inside_j, is_j⟩ := List.getElem?_eq_some_iff.mp at_j
  by_contra ne
  obtain less | less := Nat.lt_or_gt_of_ne ne
  · have := apart i j inside_i inside_j less
    simp [Function.onFun, is_i, is_j, Call.conns] at this
  · have := apart j i inside_j inside_i less
    simp [Function.onFun, is_i, is_j, Call.conns] at this

theorem Owned.holds_lt (h : Owned maxIdle s) (holds : s.Holds i c) : c < s.dialled.length := by
  obtain ⟨addr, found⟩ := holds
  exact Store.lt_of_some (h.held addr c (List.mem_of_getElem? found))

theorem Owned.idle_lt (h : Owned maxIdle s) (idle : c ∈ s.pool.idleConns) :
    c < s.dialled.length := by
  obtain ⟨addr, mem⟩ := TCPConnPool.mem_idleConns.mp idle
  exact Store.lt_of_some (h.stored addr c mem)

theorem Owned.idle_ne (h : Owned maxIdle s) (idle : c ∈ s.pool.idleConns) {d : Nat}
    (holds : s.Holds i d) : c ≠ d := by
  rintro rfl
  exact (h.apart.2.1 c idle).1 (mem_heldConns.mpr ⟨i, holds⟩)

theorem Holds.append {call : Call} (calls : s'.calls = s.calls ++ [call]) (h : s'.Holds i c) :
    s.Holds i c ∨ i = s.calls.length ∧ ∃ addr, call = .holding addr c := by
  obtain ⟨addr, found⟩ := h
  rw [calls] at found
  obtain old | ⟨here, same⟩ := Store.getElem?_concat found
  · exact .inl ⟨addr, old⟩
  · exact .inr ⟨here, addr, same.symm⟩

theorem Holds.set {call call' : Call} (calls : s'.calls = s.calls.set j call')
    (found : s.calls[j]? = some call) (h : s'.Holds i c) :
    i ≠ j ∧ s.Holds i c ∨ i = j ∧ ∃ addr, call' = .holding addr c := by
  obtain ⟨addr, there⟩ := h
  rw [calls, Store.getElem?_set found] at there
  split at there
  · rename_i here
    exact .inr ⟨here, addr, Option.some.inj there⟩
  · rename_i apart
    exact .inl ⟨apart, addr, there⟩

/-- Another call goes on. -/
theorem Holds.other {call' : Call} (h : s.Holds i c) (calls : s'.calls = s.calls.set j call')
    (apart : i ≠ j) : s'.Holds i c := by
  obtain ⟨addr, found⟩ := h
  exact ⟨addr, by rw [calls, List.getElem?_set_ne apart.symm, found]⟩

theorem dialling_set {call call' : Call} {addr : String} (calls : s'.calls = s.calls.set j call')
    (found : s.calls[j]? = some call) (new : call' ≠ .dialling addr)
    (h : s'.calls[i]? = some (.dialling addr)) : s.calls[i]? = some (.dialling addr) := by
  rw [calls, Store.getElem?_set found] at h
  split at h
  · exact absurd (Option.some.inj h) new
  · exact h

end System

/-! ## The steps of the pool -/

namespace Traffic

variable {answer : Nat → List UInt8} {maxIdle : Int} {s s' : Traffic}

theorem Paired.get (h : Paired answer maxIdle s) {addr : String} {clock : Nat → Int}
    (step : s.next (.pool (.get addr clock)) = some s') : Paired answer maxIdle s' := by
  obtain ⟨base, move, rfl⟩ := Option.map_eq_some_iff.mp step
  have owned := System.owned_step h.owned move
  have balance := s.base.pool.get_balance addr clock
  obtain ⟨call, -, holding, rfl⟩ := System.get_cases move
  have old : ∀ i, i < s.base.calls.length →
      Function.update s.readers s.base.calls.length .fresh i = s.readers i := fun i inside =>
    Function.update_of_ne (Nat.ne_of_lt inside) _ _
  refine ⟨owned, h.told, fun c mem => h.idle c ?_, fun i c holds => ?_, fun i a found => ?_,
    fun i buf reading => ?_, fun i line answered => ?_⟩
  · rw [← balance]
    exact Multiset.mem_add.mpr (.inl (Multiset.mem_add.mpr (.inl mem)))
  · obtain before | ⟨rfl, a, rfl⟩ := System.Holds.append rfl holds
    · obtain ⟨_, found⟩ := before
      simp only [old i (Store.lt_of_some found)]
      exact h.held i c ⟨_, found⟩
    · obtain ⟨rfl, taken⟩ := holding a c rfl
      simp only [Function.update_self]
      exact h.idle c (TCPConnPool.mem_idleConns.mpr ⟨a, s.base.pool.get_taken a clock taken⟩)
  · obtain before | ⟨rfl, -⟩ := Store.getElem?_concat found
    · simp only [old i (Store.lt_of_some before)]
      exact h.waiting i a before
    · exact Function.update_self _ _ _
  · by_cases new : i = s.base.calls.length
    · simp [new] at reading
    · simp only [Function.update_of_ne new] at reading
      obtain ⟨c, a, found⟩ := h.busy i buf reading
      exact ⟨c, a, (List.getElem?_append_left (Store.lt_of_some found)).trans found⟩
  · by_cases new : i = s.base.calls.length
    · simp [new] at answered
    · simp only [Function.update_of_ne new] at answered
      exact h.right i line answered

theorem Clean.blank (answer : Nat → List UInt8) : Clean answer .blank := ⟨rfl, rfl⟩

theorem Answers.of_clean {w : Wire} (clean : Clean answer w) : Answers answer w :=
  ⟨[], (List.append_nil _).trans clean.said⟩

theorem Paired.dialTimeout (h : Paired answer maxIdle s) {i : Nat} {ok : Bool}
    (step : s.next (.pool (.dialTimeout i ok)) = some s') : Paired answer maxIdle s' := by
  obtain ⟨base, move, rfl⟩ := Option.map_eq_some_iff.mp step
  have owned := System.owned_step h.owned move
  have old : ∀ c, c < s.base.dialled.length →
      Function.update s.wires s.base.dialled.length .blank c = s.wires c := fun c inside =>
    Function.update_of_ne (Nat.ne_of_lt inside) _ _
  have told : ∀ c, Answers answer (Function.update s.wires s.base.dialled.length .blank c) := by
    intro c
    by_cases new : c = s.base.dialled.length
    · simp only [new, Function.update_self]
      exact .of_clean (.blank answer)
    · simp only [Function.update_of_ne new]
      exact h.told c
  have idle : ∀ c ∈ s.base.pool.idleConns,
      Clean answer (Function.update s.wires s.base.dialled.length .blank c) := fun c mem => by
    simp only [old c (h.owned.idle_lt mem)]
    exact h.idle c mem
  obtain ⟨addr, dialling, outcome⟩ := System.dial_cases move
  have apart : ∀ {j c}, s.base.Holds j c → j ≠ i := by
    rintro j c ⟨a, found⟩ rfl
    simp [dialling] at found
  obtain ⟨-, rfl⟩ | ⟨-, rfl⟩ := outcome
  · refine ⟨owned, told, idle, fun j c holds => ?_, fun j a found => ?_, fun j buf reading => ?_,
      h.right⟩
    · obtain ⟨-, before⟩ | ⟨rfl, a, same⟩ := System.Holds.set rfl dialling holds
      · simp only [old c (h.owned.holds_lt before)]
        exact h.held j c before
      · cases same
        simp only [Function.update_self, h.waiting j addr dialling]
        exact .blank answer
    · refine h.waiting j a (System.dialling_set rfl dialling ?_ found)
      nofun
    · obtain ⟨c, holds⟩ := h.busy j buf reading
      exact ⟨c, holds.other rfl (apart holds)⟩
  · refine ⟨owned, told, idle, fun j c holds => ?_, fun j a found => ?_, fun j buf reading => ?_,
      h.right⟩
    · obtain ⟨-, before⟩ | ⟨rfl, a, same⟩ := System.Holds.set rfl dialling holds
      · simp only [old c (h.owned.holds_lt before)]
        exact h.held j c before
      · cases same
    · refine h.waiting j a (System.dialling_set rfl dialling ?_ found)
      nofun
    · obtain ⟨c, holds⟩ := h.busy j buf reading
      exact ⟨c, holds.other rfl (apart holds)⟩

theorem put_unhealthy (p : TCPConnPool) (addr : String) (conn : Nat) (created lastUsed : Int) :
    p.put addr (some conn) false created lastUsed = (p, [conn]) := by
  simp only [TCPConnPool.put, true_or, if_true]
  split <;> rfl

/-- A connection that `Put` keeps was idle before, or was put back as healthy. -/
theorem mem_idleConns_put {p : TCPConnPool} {addr : String} {conn c : Nat} {healthy : Bool}
    {created lastUsed : Int}
    (mem : c ∈ (p.put addr (some conn) healthy created lastUsed).1.idleConns) :
    c ∈ p.idleConns ∨ c = conn ∧ healthy = true := by
  cases healthy with
  | false =>
    rw [put_unhealthy] at mem
    exact .inl mem
  | true =>
    obtain closed | ⟨lst, found, -, added⟩ := p.put_cases addr conn true created lastUsed
    · rw [closed] at mem
      exact .inl mem
    · rw [added] at mem
      obtain ⟨a, mem⟩ := TCPConnPool.mem_idleConns.mp mem
      rw [TCPConnPool.idle_insert] at mem
      split at mem
      · rename_i same
        obtain rfl | mem := List.mem_cons.mp mem
        · exact .inr ⟨rfl, rfl⟩
        · refine .inl (TCPConnPool.mem_idleConns.mpr ⟨addr, ?_⟩)
          rwa [TCPConnPool.idle, Dict.listAt_of_lookup found]
      · exact .inl (TCPConnPool.mem_idleConns.mpr ⟨a, mem⟩)

theorem Paired.put (h : Paired answer maxIdle s) {i : Nat} {healthy : Bool}
    {created lastUsed : Int}
    (step : s.next (.pool (.put i healthy created lastUsed)) = some s') :
    Paired answer maxIdle s' := by
  simp only [next] at step
  split at step
  · rename_i verdict
    obtain ⟨base, move, rfl⟩ := Option.map_eq_some_iff.mp step
    have owned := System.owned_step h.owned move
    simp only [System.next] at move
    split at move
    · rename_i addr conn holding
      obtain rfl := Option.some.inj move
      refine ⟨owned, h.told, fun c mem => ?_, fun j c holds => ?_, fun j a found => ?_,
        fun j buf reading => ?_, h.right⟩
      · obtain before | ⟨rfl, rfl⟩ := mem_idleConns_put mem
        · exact h.idle c before
        · have fits := h.held i c ⟨addr, holding⟩
          cases state : s.readers i with
          | answered line =>
            rw [state] at fits
            exact fits
          | fresh | reading | failed => simp [state, Reader.healthy] at verdict
      · obtain ⟨-, before⟩ | ⟨rfl, a, same⟩ := System.Holds.set rfl holding holds
        · exact h.held j c before
        · cases same
      · refine h.waiting j a (System.dialling_set rfl holding ?_ found)
        simp
      · obtain ⟨c, holds⟩ := h.busy j buf reading
        refine ⟨c, holds.other rfl ?_⟩
        rintro rfl
        have state : s.readers j = .reading buf := reading
        simp [state, Reader.healthy] at verdict
    · cases move
  · cases step

theorem Paired.sheds (h : Paired answer maxIdle s) {out : TCPConnPool.Outcome}
    (sheds : s.base.pool.Sheds out) :
    Paired answer maxIdle { s with base := s.base.after out } where
  owned := h.owned.sheds sheds
  told := h.told
  idle c mem := by
    obtain ⟨addr, mem⟩ := TCPConnPool.mem_idleConns.mp mem
    exact h.idle c (TCPConnPool.mem_idleConns.mpr ⟨addr, (sheds.sublist addr).subset mem⟩)
  held := h.held
  waiting := h.waiting
  busy := h.busy
  right := h.right

/-! ## The steps of a call -/

/-- A call goes on with its own connection. -/
theorem Paired.turn (h : Paired answer maxIdle s) {i c : Nat} {r : Reader} {w : Wire}
    (holds : s.base.Holds i c) (told : Answers answer w) (fits : Fits answer i w r)
    (right : ∀ line, r = .answered line → line = answer i) :
    Paired answer maxIdle { s with
      readers := Function.update s.readers i r
      wires := Function.update s.wires c w } := by
  refine ⟨h.owned, fun d => ?_, fun d mem => ?_, fun j d other => ?_, fun j a found => ?_,
    fun j buf reading => ?_, fun j line answered => ?_⟩
  · by_cases same : d = c
    · simpa only [same, Function.update_self] using told
    · simpa only [Function.update_of_ne same] using h.told d
  · simpa only [Function.update_of_ne (h.owned.idle_ne mem holds)] using h.idle d mem
  · by_cases same : j = i
    · subst same
      obtain ⟨_, here⟩ := holds
      obtain ⟨_, there⟩ := other
      obtain ⟨-, rfl⟩ := Call.holding.inj (Option.some.inj (here.symm.trans there))
      simpa only [Function.update_self] using fits
    · have apart : d ≠ c := by
        rintro rfl
        exact same (h.owned.holds_unique other holds)
      simpa only [Function.update_of_ne same, Function.update_of_ne apart] using h.held j d other
  · have apart : j ≠ i := by
      rintro rfl
      obtain ⟨_, here⟩ := holds
      cases here.symm.trans found
    simpa only [Function.update_of_ne apart] using h.waiting j a found
  · by_cases same : j = i
    · exact ⟨c, same ▸ holds⟩
    · simp only [Function.update_of_ne same] at reading
      exact h.busy j buf reading
  · by_cases same : j = i
    · subst same
      simp only [Function.update_self] at answered
      exact right line answered
    · simp only [Function.update_of_ne same] at answered
      exact h.right j line answered

/-- A call fails. -/
theorem Paired.failed (h : Paired answer maxIdle s) {i c : Nat} (holds : s.base.Holds i c) :
    Paired answer maxIdle { s with readers := Function.update s.readers i .failed } := by
  have turned := h.turn (r := .failed) holds (h.told c) trivial nofun
  rwa [Function.update_eq_self] at turned

theorem Paired.write (h : Paired answer maxIdle s) {i : Nat} {ok : Bool}
    (step : s.next (.write i ok) = some s') : Paired answer maxIdle s' := by
  simp only [next] at step
  split at step
  · rename_i addr c holding fresh
    have holds : s.base.Holds i c := ⟨addr, holding⟩
    split at step
    · obtain rfl := Option.some.inj step
      have clean : Clean answer (s.wires c) := by
        have fits := h.held i c holds
        rwa [fresh] at fits
      refine h.turn holds ?_ ⟨List.not_mem_nil, clean.read.le, _, rfl, ?_⟩ nofun
      · simp only [Answers, List.map_append, List.flatten_append, ← clean.said]
        exact List.prefix_append _ _
      · simp only [clean.read, List.take_length, List.append_nil, clean.said]
    · obtain rfl := Option.some.inj step
      exact h.failed holds
  · cases step

theorem Paired.fail (h : Paired answer maxIdle s) {i : Nat}
    (step : s.next (.fail i) = some s') : Paired answer maxIdle s' := by
  simp only [next] at step
  split at step
  · rename_i addr c buf holding reading
    obtain rfl := Option.some.inj step
    exact h.failed ⟨addr, holding⟩
  · cases step

/-- When all is said, an origin that sends nothing but its answers sends nothing. -/
theorem Clean.origin {w : Wire} (clean : Clean answer w) {bytes : List UInt8}
    (told : Answers answer { w with sent := w.sent ++ bytes }) : bytes = [] := by
  have long := told.length_le
  simp only [← clean.said, List.length_append] at long
  exact List.length_eq_zero_iff.mp (by omega)

theorem Fits.origin {w : Wire} {i : Nat} {r : Reader} (fits : Fits answer i w r)
    {bytes : List UInt8} (told : Answers answer { w with sent := w.sent ++ bytes }) :
    Fits answer i { w with sent := w.sent ++ bytes } r := by
  have still : Clean answer w → Clean answer { w with sent := w.sent ++ bytes } := fun clean => by
    rwa [clean.origin told, List.append_nil]
  cases r with
  | fresh | answered => exact still fits
  | failed => trivial
  | reading buf =>
    obtain ⟨free, within, before, asked, taken⟩ := fits
    refine ⟨free, ?_, before, asked, ?_⟩
    · simp only [List.length_append]
      omega
    · simp only [List.take_append_of_le_length within, taken]

theorem Paired.origin (h : Paired answer maxIdle s) {c : Nat} {bytes : List UInt8}
    (regular : s.Regular answer (.origin c bytes))
    (step : s.next (.origin c bytes) = some s') : Paired answer maxIdle s' := by
  obtain rfl := Option.some.inj step
  refine ⟨h.owned, fun d => ?_, fun d mem => ?_, fun j d holds => ?_, h.waiting, h.busy, h.right⟩
  · by_cases same : d = c
    · simp only [same, Function.update_self]
      exact regular
    · simpa only [Function.update_of_ne same] using h.told d
  · by_cases same : d = c
    · subst same
      have clean := h.idle d mem
      rw [clean.origin regular, List.append_nil, Function.update_eq_self]
      exact clean
    · simpa only [Function.update_of_ne same] using h.idle d mem
  · by_cases same : d = c
    · subst same
      simpa only [Function.update_self] using (h.held j d holds).origin regular
    · simpa only [Function.update_of_ne same] using h.held j d holds

/-- What `ReadString` makes of the bytes of one `Read`. -/
theorem Fits.fill {w : Wire} {i : Nat} {buf : List UInt8} (line : Lines.IsLine 10 (answer i))
    (told : Answers answer w) (fits : Fits answer i w (.reading buf)) (n : Nat) :
    Fits answer i { w with read := w.read + ((w.sent.drop w.read).take n).length }
        (.readString (buf ++ (w.sent.drop w.read).take n)) ∧
      ∀ l, Reader.readString (buf ++ (w.sent.drop w.read).take n) = .answered l →
        l = answer i := by
  obtain ⟨free, within, before, asked, taken⟩ := fits
  generalize got : (w.sent.drop w.read).take n = g
  have inside : g <+: w.sent.drop w.read := got ▸ List.take_prefix _ _
  have length : g.length ≤ w.sent.length - w.read := by
    simpa only [List.length_drop] using inside.length_le
  have read : w.sent.take (w.read + g.length) = (before.map answer).flatten ++ (buf ++ g) := by
    rw [List.take_add, taken, List.append_assoc, ← List.prefix_iff_eq_take.mp inside]
  simp only [Answers, asked, List.map_append, List.flatten_append, List.map_singleton,
    List.flatten_singleton] at told
  have own : buf ++ g <+: answer i := by
    have := (List.take_prefix (w.read + g.length) w.sent).trans told
    rwa [read, List.prefix_append_right_inj] at this
  unfold Reader.readString
  split
  · rename_i there
    have whole := line.eq_of_isPrefix own there
    rw [whole] at read
    have all : w.sent = (before.map answer).flatten ++ answer i := by
      refine told.eq_of_length_le ?_
      rw [← read]
      exact (List.take_prefix _ _).length_le
    have end_ : w.read + g.length = w.sent.length := by
      have := congrArg List.length (read.trans all.symm)
      rw [List.length_take] at this
      omega
    rw [whole, line.takeWhile]
    refine ⟨⟨?_, end_⟩, fun l same => (Reader.answered.inj same).symm⟩
    simpa only [asked, List.map_append, List.flatten_append, List.map_singleton,
      List.flatten_singleton] using all
  · rename_i free'
    exact ⟨⟨free', by simp only; omega, before, asked, read⟩, nofun⟩

theorem Paired.fill (h : Paired answer maxIdle s) (lines : ∀ i, Lines.IsLine 10 (answer i))
    {i n : Nat} (step : s.next (.fill i n) = some s') : Paired answer maxIdle s' := by
  simp only [next] at step
  split at step
  · rename_i addr c buf holding reading
    have holds : s.base.Holds i c := ⟨addr, holding⟩
    split at step
    · cases step
    · obtain rfl := Option.some.inj step
      have fits := h.held i c holds
      rw [reading] at fits
      obtain ⟨fits, right⟩ := fits.fill (lines i) (h.told c) n
      exact h.turn holds (h.told c) fits right
  · cases step

theorem Paired.step (lines : ∀ i, Lines.IsLine 10 (answer i)) {e : TrafficEvent}
    (h : Paired answer maxIdle s) (regular : s.Regular answer e) (step : s.next e = some s') :
    Paired answer maxIdle s' := by
  cases e with
  | pool e =>
    cases e with
    | get => exact h.get step
    | dialTimeout => exact h.dialTimeout step
    | put => exact h.put step
    | cleanup c now =>
      obtain rfl := Option.some.inj step
      exact h.sheds (s.base.pool.cleanup_sheds c now)
    | close c =>
      obtain rfl := Option.some.inj step
      exact h.sheds (s.base.pool.close_sheds c)
  | write => exact h.write step
  | origin => exact h.origin regular step
  | fill => exact h.fill lines step
  | fail => exact h.fail step

theorem Paired.init (answer : Nat → List UInt8) {maxIdle : Int} (room : 0 ≤ maxIdle)
    (maxLifetime : Int) : Paired answer maxIdle (init maxIdle maxLifetime) where
  owned := System.owned_init room maxLifetime
  told _ := .of_clean (.blank answer)
  idle _ _ := .blank answer
  held _ _ _ := .blank answer
  waiting _ _ _ := rfl
  busy := nofun
  right := nofun

/-- A call that finds something reads it. -/
theorem exists_fill {i c : Nat} {addr : String} {buf got : List UInt8}
    (holding : s.base.calls[i]? = some (.holding addr c)) (reading : s.readers i = .reading buf)
    (there : (s.wires c).sent.drop (s.wires c).read = got) (more : got ≠ []) :
    ∃ s', s.next (.fill i got.length) = some s' ∧ s'.readers i = .readString (buf ++ got) := by
  simp only [next, holding, reading, there, List.take_length, if_neg more]
  exact ⟨_, rfl, Function.update_self _ _ _⟩

/-- A call that has written its request gets the answer when the origin sends the rest of what
it has to say. -/
theorem Paired.answer_comes (h : Paired answer maxIdle s) {i : Nat}
    (line : Lines.IsLine 10 (answer i)) {buf : List UInt8} (reading : s.readers i = .reading buf) :
    ∃ s', Run (Moves next) (Regular answer) s s' ∧ s'.readers i = .answered (answer i) := by
  obtain ⟨c, holds⟩ := h.busy i buf reading
  have fits := h.held i c holds
  rw [reading] at fits
  obtain ⟨free, within, before, asked, taken⟩ := fits
  obtain ⟨addr, holding⟩ := holds
  obtain ⟨rest, said⟩ := h.told c
  -- the rest of the answer, after what is in the buffer
  have own : buf ++ (((s.wires c).sent ++ rest).drop (s.wires c).read) = answer i := by
    have parts := List.take_append_drop (s.wires c).read ((s.wires c).sent ++ rest)
    rw [List.take_append_of_le_length within, taken, said, asked] at parts
    simp only [List.map_append, List.flatten_append, List.map_singleton, List.flatten_singleton,
      List.append_assoc, List.append_cancel_left_eq] at parts
    rw [said, asked]
    simpa using parts
  have more : ((s.wires c).sent ++ rest).drop (s.wires c).read ≠ [] := by
    intro none
    rw [none, List.append_nil] at own
    obtain ⟨l, -, same⟩ := line
    exact free (by simp [own, same])
  have there : 10 ∈ answer i := by
    obtain ⟨l, -, same⟩ := line
    simp [same]
  have told : s.Regular answer (.origin c rest) := ⟨[], (List.append_nil _).trans said⟩
  obtain ⟨s', filled, read⟩ := exists_fill (s := { s with
      wires := Function.update s.wires c { s.wires c with sent := (s.wires c).sent ++ rest } })
    holding reading (by simp only [Function.update_self]) more
  refine ⟨s', (Run.single told rfl).next (e := .fill i _) trivial filled, ?_⟩
  rw [read, own, Reader.readString, if_pos there, line.takeWhile]

/-- **Whose answer a caller gets.** Let the origins answer every request with one line, and send
nothing else. However the callers of the pool take turns, a caller gets no line but the answer
to its own request, nothing is left to be read on the connections in the pool, and every caller
that has written its request and waits can get its answer. -/
theorem own_answers {maxIdle maxLifetime : Int} (room : 0 ≤ maxIdle)
    (lines : ∀ i, Lines.IsLine 10 (answer i))
    (run : Run (Moves next) (Regular answer) (init maxIdle maxLifetime) s) :
    (∀ i line, s.readers i = .answered line → line = answer i) ∧
      (∀ c ∈ s.base.pool.idleConns, (s.wires c).read = (s.wires c).sent.length ∧
        (s.wires c).sent = ((s.wires c).asked.map answer).flatten) ∧
      ∀ i buf, s.readers i = .reading buf →
        ∃ s', Run (Moves next) (Regular answer) s s' ∧ s'.readers i = .answered (answer i) := by
  have paired : Paired answer maxIdle s :=
    run.invariant (fun _ _ _ kept regular step => kept.step lines regular step)
      (.init answer room maxLifetime)
  exact ⟨paired.right, fun c mem => ⟨(paired.idle c mem).read, (paired.idle c mem).said⟩,
    fun i buf reading => paired.answer_comes (lines i) reading⟩

/-- Two callers use a connection one after the other. The second has half of its answer and
waits for the rest. -/
theorem own_answers_reuse :
    (∀ i : Nat, Lines.IsLine 10 (if i = 0 then [65, 10] else [66, 67, 10] : List UInt8)) ∧
      ∃ s, Run (Moves next) (Regular fun i => if i = 0 then [65, 10] else [66, 67, 10])
        (init 1 100) s ∧ (s.readers 0 = .answered [65, 10] ∧ s.readers 1 = .reading [66] ∧
          s.wires 0 = ⟨[0, 1], [65, 10, 66], 3⟩) ∧
        ∃ s', Run (Moves next) (Regular fun i => if i = 0 then [65, 10] else [66, 67, 10]) s s' ∧
          s'.readers 1 = .answered [66, 67, 10] := by
  have lines : ∀ i : Nat, Lines.IsLine 10
      (if i = 0 then [65, 10] else [66, 67, 10] : List UInt8) := fun i => by
    split
    · exact ⟨[65], by decide, rfl⟩
    · exact ⟨[66, 67], by decide, rfl⟩
  have reached : ∃ s, Run (Moves next) (Regular fun i => if i = 0 then [65, 10] else [66, 67, 10])
      (init 1 100) s ∧ s.readers 0 = .answered [65, 10] ∧ s.readers 1 = .reading [66] ∧
        s.wires 0 = ⟨[0, 1], [65, 10, 66], 3⟩ :=
    Run.exists_of_checked [.pool (.get "a:80" fun _ => 0), .pool (.dialTimeout 0 true),
      .write 0 true, .origin 0 [65, 10], .fill 0 4096, .pool (.put 0 true 10 10),
      .pool (.get "a:80" fun _ => 20), .write 1 true, .origin 0 [66], .fill 1 4096]
      (by decide +kernel)
  obtain ⟨s, run, holds⟩ := reached
  exact ⟨lines, s, run, holds, (own_answers (by decide) lines run).2.2 1 [66] holds.2.1⟩

end Traffic

end SkyAccel.Backsourcer
