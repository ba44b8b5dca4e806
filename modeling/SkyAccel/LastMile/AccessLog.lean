import Mathlib.Data.List.Sort
import Mathlib.Data.Rat.Defs
import SkyAccel.LastMile.IPOverride
import SkyAccel.Lib.Run

/-!
# The access log and the congestion of the last mile

`telemetry.go` of the edge domain. One goroutine reads the end of the access log every few
seconds (`readLatestLogs`) and makes a record of each line; another takes the records of the
last ten seconds, or all of them if there are none, and counts them by city
(`calculateLastCongestion`).

Nothing remembers how far the log has been read. A line that is still among the last 32 KB
at the next read gives a second record while the first is kept (`line_counted_twice`). If no
line is read again while a record of it is kept, each is counted once
(`lines_counted_once`).
-/

namespace SkyAccel.Telemetry

open IPLib (IPInfoResult)

def newline : UInt8 := 10

/-! ## Lines of a file -/

/-- A line of the log, without the newline that ends it. -/
structure Line where
  text : Bytes
  whole : newline ∉ text

def content (lines : List Line) : Bytes := lines.flatMap fun l => l.text ++ [newline]

/-- The number of the line that a position is in. -/
def lineAt (lines : List Line) (pos : Nat) : Nat := ((content lines).take pos).count newline

/-- The rest of the line that a position is in. -/
def tokenAt (lines : List Line) (pos : Nat) : Bytes :=
  ((content lines).drop pos).takeWhile (· ≠ newline)

theorem content_cons (l : Line) (lines : List Line) :
    content (l :: lines) = l.text ++ newline :: content lines := by
  simp only [content, List.flatMap_cons, List.append_assoc, List.singleton_append]

/-- What is read at a position is the end of the line there. -/
theorem tokenAt_suffix (lines : List Line) (pos : Nat) (inside : pos < (content lines).length) :
    ∃ l, lines[lineAt lines pos]? = some l ∧ tokenAt lines pos <:+ l.text := by
  induction lines generalizing pos with
  | nil => cases inside
  | cons l lines ih =>
    unfold lineAt tokenAt
    rw [content_cons] at inside ⊢
    by_cases here : pos ≤ l.text.length
    · have number : (l.text.take pos).count newline = 0 :=
        List.count_eq_zero_of_not_mem fun mem => l.whole (List.mem_of_mem_take mem)
      have whole : ∀ b ∈ l.text.drop pos, decide (b ≠ newline) = true := fun b mem =>
        decide_eq_true fun same => l.whole (same ▸ List.mem_of_mem_drop mem)
      rw [List.take_append_of_le_length here, number, List.drop_append_of_le_length here,
        List.takeWhile_append_of_pos whole]
      refine ⟨l, rfl, ?_⟩
      simp [List.drop_suffix]
    · obtain ⟨q, rfl⟩ : ∃ q, pos = (l.text ++ [newline]).length + q :=
        ⟨pos - (l.text.length + 1), by simp only [List.length_append, List.length_singleton]; omega⟩
      have split : l.text ++ newline :: content lines = (l.text ++ [newline]) ++ content lines := by
        simp only [List.append_assoc, List.singleton_append]
      have first : (l.text ++ [newline]).count newline = 1 := by
        rw [List.count_append, List.count_eq_zero_of_not_mem l.whole, List.count_singleton_self]
      rw [split] at inside ⊢
      rw [@List.length_append _ (l.text ++ [newline])] at inside
      obtain ⟨k, at_, suffix⟩ := ih q (Nat.add_lt_add_iff_left.mp inside)
      rw [List.take_length_add_append, List.drop_length_add_append, List.count_append, first,
        Nat.add_comm 1]
      exact ⟨k, at_, suffix⟩

/-! ## Records -/

/-- What the process is given: `time.Parse`, `strconv.ParseFloat` with `math.Round`, and the
tables of `ip-lib.go`. -/
structure Env where
  parseTime : Bytes → Option Int
  roundRT : Bytes → Int
  ipLib : IPLib.Env

/-- A record, with the number of the line that it was made of, which the program does not
have. Times are in nanoseconds. -/
structure Record where
  ts : Int
  clientIP : Bytes
  connRT : Int
  country : Bytes
  province : Bytes
  city : Bytes
  line : Nat
  deriving DecidableEq

/-- The first match of a pattern that is a text and one or more bytes of a class. -/
def extract (text : Bytes) (inClass : UInt8 → Bool) : Bytes → Bytes
  | [] => []
  | b :: rest =>
    let found := ((b :: rest).drop text.length).takeWhile inClass
    if text.isPrefixOf (b :: rest) ∧ found ≠ [] then found else extract text inClass rest

def notSpace (b : UInt8) : Bool := b ∉ ascii " \t\n\r" ∧ b ≠ 12

def digitOrDot (b : UInt8) : Bool := b ∈ ascii "0123456789."

def clientIP (line : Bytes) : Bytes := extract (ascii "client_ip=") notSpace line

/-- The record of a line, given its number and what `GetIPInfo` returned. -/
def Env.toRecord (env : Env) (number : Nat) (line : Bytes) (info : Except String IPInfoResult) :
    Option Record :=
  let tsStr := extract (ascii "time=") notSpace line
  let rtStr := extract (ascii "conn_rt_ms=") digitOrDot line
  if tsStr = [] ∨ clientIP line = [] ∨ rtStr = [] then none
  else
    match env.parseTime tsStr, info with
    | some ts, .ok ipInfo =>
      some ⟨ts, clientIP line, env.roundRT rtStr, ipInfo.country, ipInfo.province, ipInfo.city, number⟩
    | _, _ => none

theorem Env.toRecord_number (env : Env) (number : Nat) (line : Bytes)
    (info : Except String IPInfoResult) :
    env.toRecord number line info =
      (env.toRecord 0 line info).map fun r => { r with line := number } := by
  simp only [Env.toRecord]
  split
  · rfl
  · split <;> rfl

/-- What `bufio.ScanLines` does with a carriage return at the end of a line. -/
def dropCR (token : Bytes) : Bytes := if token.getLast? = some 13 then token.dropLast else token

/-- Some end of the line can give a record of the city. -/
def Env.ofCity (env : Env) (city : Bytes) (l : Line) : Bool :=
  l.text.tails.any fun token => (env.ipLib.answers (clientIP (dropCR token))).any fun info =>
    (env.toRecord 0 (dropCR token) info).any (·.city = city)

/-! ## Counting -/

structure LastCongestion where
  count : Nat
  sumRT : ℚ
  avgRT : ℚ
  p95RT : Int
  deriving DecidableEq

/-- What the loop over the records has of a city, in `agg` and `rts`. -/
structure Tally where
  count : Nat
  sumRT : ℚ
  rts : List Int

def addRecord (agg : Dict Bytes Tally) (r : Record) : Dict Bytes Tally :=
  let s := (agg.lookup r.city).getD ⟨0, 0, []⟩
  agg.insert r.city ⟨s.count + 1, s.sumRT + r.connRT, s.rts ++ [r.connRT]⟩

def Tally.finish (s : Tally) : LastCongestion :=
  let avg := s.sumRT / s.count
  let rtList := s.rts.insertionSort (· ≤ ·)
  let p95Idx := min (rtList.length * 95 / 100) (rtList.length - 1)
  let p95 := rtList.getD p95Idx 0
  { count := s.count
    sumRT := s.sumRT
    avgRT := if avg ≤ 0 then 1 else avg
    p95RT := if rtList = [] then 0 else if p95 ≤ 0 then 1 else p95 }

def aggregate (valid : List Record) : Dict Bytes LastCongestion :=
  (valid.foldl addRecord ∅).mapValues Tally.finish

def window : Int := 10 * 1000000000

/-- The records in the window, or all of them if there are none. -/
def validRecords (records : List Record) (now : Int) : List Record :=
  let valid := records.filter fun r => now - r.ts ≤ window
  if valid = [] ∧ records ≠ [] then records else valid

theorem validRecords_sublist (records : List Record) (now : Int) :
    (validRecords records now).Sublist records := by
  simp only [validRecords]
  split
  · exact List.Sublist.refl _
  · exact List.filter_sublist

theorem count_addRecord (agg : Dict Bytes Tally) (r : Record) (city : Bytes) :
    ((addRecord agg r).lookup city).elim 0 Tally.count =
      (agg.lookup city).elim 0 Tally.count + if r.city = city then 1 else 0 := by
  simp only [addRecord, Dict.lookup_insert]
  by_cases own : city = r.city
  · subst own
    cases agg.lookup r.city <;> simp
  · simp [own, Ne.symm own]

theorem count_foldl (valid : List Record) (agg : Dict Bytes Tally) (city : Bytes) :
    ((valid.foldl addRecord agg).lookup city).elim 0 Tally.count =
      (agg.lookup city).elim 0 Tally.count + valid.countP (·.city = city) := by
  induction valid generalizing agg with
  | nil => rfl
  | cons r valid ih =>
    rw [List.foldl_cons, ih, count_addRecord, List.countP_cons]
    simp only [decide_eq_true_eq]
    omega

/-- The count of a city is the number of its records. -/
theorem count_aggregate {valid : List Record} {city : Bytes} {c : LastCongestion}
    (h : (aggregate valid).lookup city = some c) : c.count = valid.countP (·.city = city) := by
  rw [aggregate, Dict.lookup_mapValues] at h
  obtain ⟨s, found, rfl⟩ := Option.map_eq_some_iff.mp h
  have count := count_foldl valid ∅ city
  rw [found] at count
  exact count.trans (Nat.zero_add _)

/-- Records of different lines are no more than the lines. -/
theorem length_le_lines {lines : List Line} {p : Line → Bool} {records : List Record}
    (once : (records.map Record.line).Nodup)
    (made : ∀ r ∈ records, ∃ l, lines[r.line]? = some l ∧ p l = true) :
    records.length ≤ lines.countP p := by
  rw [← List.length_map (f := Record.line), ← List.length_findIdxs (s := 0)]
  refine (List.subperm_of_subset once fun k number => ?_).length_le
  obtain ⟨r, mem, rfl⟩ := List.mem_map.mp number
  obtain ⟨l, at_, holds⟩ := made r mem
  obtain ⟨lt, rfl⟩ := List.getElem?_eq_some_iff.mp at_
  exact (List.mem_findIdxs_iff_pos_getElem lt).mpr holds

/-! ## The machine -/

/-- A call of `calculateLastCongestion`: the log at that time, the records it took and what
it returned. -/
structure Report where
  logged : List Line
  valid : List Record
  result : Dict Bytes LastCongestion

/-- `reading` is the position in the file of the call of `readLatestLogs` that is under way.
The reports are not part of the program. -/
structure AccessLog where
  lines : List Line
  records : List Record
  reading : Option Nat
  reports : List Report

/-- A pass of the scanner's loop is a step, as lines are written and reports made between
them; `n` is the answer of `GetIPInfo`, if there are several. -/
inductive LogEvent
  | append (l : Line)
  | readLatestLogs
  | scan (n : Nat)
  | calculateLastCongestion (now : Int)

namespace AccessLog
variable (env : Env)

def init : AccessLog := ⟨[], [], none, []⟩

def readSize : Nat := 32 * 1024

/-- Where the scanner begins. The first line is skipped, or its first 1024 bytes if it does
not end in them. -/
def startPos (file : Bytes) : Nat :=
  if readSize < file.length then
    let start := file.length - readSize
    let buf := (file.drop start).take 1024
    match buf.findIdx? (· = newline) with
    | some idx => start + idx + 1
    | none => start + buf.length
  else 0

/-- The longest line the scanner takes, and one more. -/
def maxTokenSize : Nat := 1 <<< 20

/-- The scanner has come to the end of the file, or to a line it does not take. -/
def AtEnd (s : AccessLog) (pos : Nat) : Prop :=
  (content s.lines).length ≤ pos ∨ maxTokenSize ≤ (tokenAt s.lines pos).length

instance (s : AccessLog) (pos : Nat) : Decidable (s.AtEnd pos) :=
  inferInstanceAs (Decidable (_ ∨ _))

/-- What a pass takes from the file at a position, and what it may hear about the client. -/
def scanned (s : AccessLog) (pos : Nat) : Bytes := dropCR (tokenAt s.lines pos)

def answers (s : AccessLog) (pos : Nat) : List (Except String IPInfoResult) :=
  env.ipLib.answers (clientIP (s.scanned pos))

/-- The record that a pass adds at a position, if it adds one. -/
def newRecord (s : AccessLog) (pos n : Nat) : Option Record :=
  if s.AtEnd pos then none
  else (s.answers env pos)[n]?.bind (env.toRecord (lineAt s.lines pos) (s.scanned pos))

def next (s : AccessLog) : LogEvent → Option AccessLog
  | .append l => some { s with lines := s.lines ++ [l] }
  | .readLatestLogs =>
    if s.reading = none then some { s with reading := some (startPos (content s.lines)) } else none
  | .scan n => do
    let pos ← s.reading
    if s.AtEnd pos then some { s with reading := none }
    else if n < (s.answers env pos).length then
      some { s with
        records := s.records ++ (s.newRecord env pos n).toList
        reading := some (pos + (tokenAt s.lines pos).length + 1) }
    else none
  | .calculateLastCongestion now =>
    let valid := validRecords s.records now
    some { s with
      records := valid
      reports := s.reports ++ [⟨s.lines, valid, aggregate valid⟩] }

end AccessLog

/-- No line is counted twice, and no city has more records than lines. -/
def Report.CountsOnce (env : Env) (r : Report) : Prop :=
  (r.valid.map Record.line).Nodup ∧
    ∀ city c, r.result.lookup city = some c → c.count ≤ r.logged.countP (env.ofCity city)

namespace AccessLog

/-- A line that gives a record is read only while no record of it is kept. -/
def Unread (env : Env) (s : AccessLog) : LogEvent → Prop
  | .scan n => ∀ pos ∈ s.reading, ∀ new ∈ s.newRecord env pos n, ∀ r ∈ s.records, r.line ≠ new.line
  | _ => True

instance (env : Env) (s : AccessLog) : (e : LogEvent) → Decidable (s.Unread env e)
  | .scan n => inferInstanceAs (Decidable (∀ pos ∈ s.reading, ∀ new ∈ s.newRecord env pos n, _))
  | .append _ | .readLatestLogs | .calculateLastCongestion _ => isTrue trivial

/-! ## What a step keeps -/

section
variable {env : Env} {s s' : AccessLog} {e : LogEvent}

/-- A record of a line is one of an end of the line. -/
theorem made_of_line {pos n : Nat} {new : Record} (h : s.newRecord env pos n = some new) :
    ∃ l, s.lines[new.line]? = some l ∧ env.ofCity new.city l = true := by
  unfold newRecord at h
  split at h
  · cases h
  · rename_i more
    obtain ⟨info, answer, record⟩ := Option.bind_eq_some_iff.mp h
    obtain ⟨l, at_, suffix⟩ :=
      tokenAt_suffix s.lines pos (Nat.lt_of_not_le fun past => more (.inl past))
    rw [Env.toRecord_number] at record
    obtain ⟨r, made, rfl⟩ := Option.map_eq_some_iff.mp record
    refine ⟨l, at_, List.any_eq_true.mpr ⟨_, (List.mem_tails _ _).mpr suffix, ?_⟩⟩
    refine List.any_eq_true.mpr ⟨info, List.mem_of_getElem? answer, ?_⟩
    rw [show dropCR (tokenAt s.lines pos) = s.scanned pos from rfl, made]
    exact decide_eq_true rfl

/-- The records that are kept are of different lines, each of a line of the log, and so were
those of the reports. -/
structure Once (env : Env) (s : AccessLog) : Prop where
  once : (s.records.map Record.line).Nodup
  made : ∀ r ∈ s.records, ∃ l, s.lines[r.line]? = some l ∧ env.ofCity r.city l = true
  reports : ∀ report ∈ s.reports, report.CountsOnce env

theorem init_once : Once env init where
  once := List.nodup_nil
  made _ mem := nomatch mem
  reports _ mem := nomatch mem

theorem Once.append (h : Once env s) (l : Line) : Once env { s with lines := s.lines ++ [l] } where
  once := h.once
  made r mem := by
    obtain ⟨k, at_, own⟩ := h.made r mem
    obtain ⟨lt, -⟩ := List.getElem?_eq_some_iff.mp at_
    exact ⟨k, (List.getElem?_append_left lt).trans at_, own⟩
  reports := h.reports

theorem Once.scan (h : Once env s) {pos n : Nat} {reading : Option Nat}
    (unread : ∀ new ∈ s.newRecord env pos n, ∀ r ∈ s.records, r.line ≠ new.line) :
    Once env { s with
      records := s.records ++ (s.newRecord env pos n).toList, reading := reading } where
  once := by
    cases added : s.newRecord env pos n with
    | none => simpa using h.once
    | some new =>
      rw [Option.toList_some, List.map_append, List.map_singleton, List.nodup_append]
      refine ⟨h.once, List.nodup_singleton _, fun a number b last => ?_⟩
      obtain ⟨r, mem, rfl⟩ := List.mem_map.mp number
      obtain rfl := List.mem_singleton.mp last
      exact unread new added r mem
  made r mem := by
    obtain mem | new := List.mem_append.mp mem
    · exact h.made r mem
    · exact made_of_line (Option.mem_toList.mp new)
  reports := h.reports

theorem Once.calculate (h : Once env s) (now : Int) :
    Once env { s with
      records := validRecords s.records now
      reports := s.reports ++
        [⟨s.lines, validRecords s.records now, aggregate (validRecords s.records now)⟩] } := by
  have less := validRecords_sublist s.records now
  have once : ((validRecords s.records now).map Record.line).Nodup := h.once.sublist (less.map _)
  refine ⟨once, fun r mem => h.made r (less.subset mem), fun report mem => ?_⟩
  obtain mem | last := List.mem_append.mp mem
  · exact h.reports report mem
  · obtain rfl := List.mem_singleton.mp last
    refine ⟨once, fun city c found => ?_⟩
    rw [count_aggregate found, List.countP_eq_length_filter]
    apply length_le_lines (once.sublist (List.filter_sublist.map _))
    intro r mem
    obtain ⟨mem, own⟩ := List.mem_filter.mp mem
    exact of_decide_eq_true own ▸ h.made r (less.subset mem)

theorem Once.step (h : Once env s) (unread : s.Unread env e) (move : s.next env e = some s') :
    Once env s' := by
  cases e with
  | append l =>
    obtain rfl := Option.some.inj move
    exact h.append l
  | readLatestLogs =>
    simp only [next] at move
    split at move
    · obtain rfl := Option.some.inj move
      exact { h with }
    · cases move
  | scan n =>
    obtain ⟨pos, at_, move⟩ := Option.bind_eq_some_iff.mp move
    split at move
    · obtain rfl := Option.some.inj move
      exact { h with }
    · split at move
      · obtain rfl := Option.some.inj move
        exact h.scan (unread pos at_)
      · cases move
  | calculateLastCongestion now =>
    obtain rfl := Option.some.inj move
    exact h.calculate now

theorem validRecords_eq_self {records : List Record} {now : Int}
    (recent : ∀ r ∈ records, now - r.ts ≤ window) : validRecords records now = records := by
  have all : records.filter (fun r => now - r.ts ≤ window) = records :=
    List.filter_eq_self.mpr fun r mem => decide_eq_true (recent r mem)
  simp only [validRecords, all, ite_self]

/-- A line that is read again while a record of it is kept has two. -/
theorem doubled {n : Nat} (move : s.next env (.scan n) = some s') (again : ¬ s.Unread env (.scan n)) :
    ¬ (s'.records.map Record.line).Nodup := by
  simp only [Unread] at again
  push Not at again
  obtain ⟨pos, at_, new, added, r, mem, same⟩ := again
  have more : ¬ s.AtEnd pos := by
    intro ended
    rw [Option.mem_def, newRecord, if_pos ended] at added
    cases added
  obtain ⟨pos', at_', move⟩ := Option.bind_eq_some_iff.mp move
  obtain rfl := Option.mem_unique at_ at_'
  rw [if_neg more] at move
  split at move
  · obtain rfl := Option.some.inj move
    rw [Option.mem_def.mp added, Option.toList_some, List.map_append, List.nodup_append]
    rintro ⟨-, -, apart⟩
    exact apart _ (List.mem_map_of_mem mem) _ List.mem_cons_self same
  · cases move

end

/-! ## Whole runs -/

/-- **Each line is counted once in every run in which no line is read again while a record
of it is kept.** When one is, a report before the window has passed counts it twice. -/
theorem lines_counted_once (env : Env) {s : AccessLog}
    (run : Run (Moves (next env)) (Unread env) init s) :
    (∀ report ∈ s.reports, report.CountsOnce env) ∧
    ∀ n s', s.next env (.scan n) = some s' → ¬ s.Unread env (.scan n) →
      ∀ now, (∀ r ∈ s'.records, now - r.ts ≤ window) →
        ∃ s'', s'.next env (.calculateLastCongestion now) = some s'' ∧
          ∃ report ∈ s''.reports, ¬ report.CountsOnce env := by
  constructor
  · have kept : Once env s :=
      run.invariant (P := Once env) (fun _ _ _ h unread move => h.step unread move) init_once
    exact kept.reports
  · intro n s' move again now recent
    refine ⟨_, rfl, _, List.mem_append_right _ List.mem_cons_self, fun once => ?_⟩
    rw [validRecords_eq_self recent] at once
    exact doubled move again once.1

/-- An environment in which every time is zero and every client is in one city. -/
def oneCity : Env where
  parseTime _ := some 0
  roundRT _ := 12
  ipLib :=
    { ipDb := some fun _ => .ok ⟨ascii "DE", ascii "Hesse", ascii "Frankfurt"⟩
      countryToContinent := ∅
      ipOverrides := ∅ }

def access : Line := ⟨ascii "time=0 client_ip=10.0.0.1 conn_rt_ms=12.3", by decide +kernel⟩

/-- One line, and reads and reports five and ten seconds after it: the second report counts
two connections. -/
theorem line_counted_twice :
    ∃ s, Run (Moves (next oneCity)) (fun _ _ => True) init s ∧
      ∃ report ∈ s.reports, report.logged.length = 1 ∧
        report.valid.map Record.line = [0, 0] ∧
        report.result.lookup (ascii "Frankfurt") = some ⟨2, 24, 12, 12⟩ := by
  apply Run.exists_of_checked [.append access,
    .readLatestLogs, .scan 0, .scan 0, .calculateLastCongestion 5000000000,
    .readLatestLogs, .scan 0, .scan 0, .calculateLastCongestion 10000000000]
  decide +kernel

/-- Two lines that are read once, the second while the read is under way. -/
theorem lines_read_once :
    ∃ s, Run (Moves (next oneCity)) (Unread oneCity) init s ∧
      (∃ report ∈ s.reports, report.result.lookup (ascii "Frankfurt") = some ⟨2, 24, 12, 12⟩) ∧
      ∀ report ∈ s.reports, report.CountsOnce oneCity := by
  have found : ∃ s, Run (Moves (next oneCity)) (Unread oneCity) init s ∧
      ∃ report ∈ s.reports,
        report.result.lookup (ascii "Frankfurt") = some ⟨2, 24, 12, 12⟩ := by
    apply Run.exists_of_checked [.append access, .readLatestLogs, .scan 0, .append access,
      .scan 0, .scan 0, .calculateLastCongestion 5000000000]
    decide +kernel
  obtain ⟨s, run, counted⟩ := found
  exact ⟨s, run, counted, (lines_counted_once oneCity run).1⟩

end AccessLog

end SkyAccel.Telemetry
