import Mathlib.Data.List.Induction
import PoxChat.Outbound.SendQueue

/-!
# Flood protection

`flood_check` of `ignore.c`: the counters of a server and the calls that report a flood.

* `Call` — a call at a time of `time (NULL)`, with the nick and the address of the sender.
* `FloodVars` — what a server keeps for one kind of message: the start of the window and the counter.
* `Burst` — `num` calls that follow each other within the configured time.

The kinds differ in one place: the first private message of a connection is counted as a CTCP.

Principal results: `report_justified` — a report comes only after `num` calls within the configured time;
`floods_found_iff` — every burst is reported if and only if it is one of CTCPs and ends in an open window.
-/

set_option autoImplicit false

namespace PoxChat.Inbound.Flood

open Outbound (Bytes bytes)

/-! ## The model -/

/-- The argument `what`. -/
inductive What where
  | ctcp | priv

/-- The preferences of one kind, `hex_flood_ctcp_num` and `hex_flood_ctcp_time` or those of messages. -/
structure Limits where
  num : Nat
  time : Int
  two_le : 2 ≤ num
  one_le : 1 ≤ time

structure Call where
  now : Int
  nick : Bytes
  ip : Bytes

/-- The fields of a server; `last_time` is 0 before the first call. -/
structure FloodVars where
  ctcpCounter : Nat := 0
  ctcpLastTime : Int := 0
  msgCounter : Nat := 0
  msgLastTime : Int := 0

/-- What a report does beside its return value. -/
inductive Effect where
  | printText (text : Bytes)
  /-- `ignore_add (mask, IG_CTCP, FALSE)`. -/
  | ignoreAdd (mask : Bytes)
  /-- `hex_gui_autoopen_dialog` is turned off, for 30 seconds if it was on. -/
  | autoopenDialogOff

/-- The mask of a CTCP flood: the host of the sender, or the nick when there is none. -/
def floodMask (call : Call) : Bytes :=
  match call.ip.dropWhile (· ≠ 64) with
  | [] => call.nick ++ bytes "!*"
  | realIp => bytes "*!*" ++ realIp

def ctcpEffects (call : Call) : List Effect :=
  [.printText
      (bytes "You are being CTCP flooded from " ++ call.nick ++ bytes ", ignoring " ++ floodMask call ++ [10]),
    .ignoreAdd (floodMask call)]

/-- The text of a message flood goes through a buffer of 512 bytes. -/
def msgEffects (call : Call) : List Effect :=
  let text := bytes "You are being MSG flooded from " ++ call.ip ++ bytes ", setting gui_autoopen_dialog OFF." ++ [10]
  [.printText (text.take 511), .autoopenDialogOff]

/-- `flood_check`; no effects when it returns 1. -/
def floodCheck (limits : Limits) (what : What) (serv : FloodVars) (call : Call) :
    FloodVars × Option (List Effect) :=
  match what with
  | .ctcp =>
    if serv.ctcpLastTime = 0 then
      ({ serv with ctcpLastTime := call.now, ctcpCounter := serv.ctcpCounter + 1 }, none)
    else if call.now - serv.ctcpLastTime < limits.time then
      if serv.ctcpCounter + 1 = limits.num then
        ({ serv with ctcpLastTime := call.now, ctcpCounter := 0 }, some (ctcpEffects call))
      else ({ serv with ctcpCounter := serv.ctcpCounter + 1 }, none)
    else (serv, none)
  | .priv =>
    if serv.msgLastTime = 0 then
      -- the other counter
      ({ serv with msgLastTime := call.now, ctcpCounter := serv.ctcpCounter + 1 }, none)
    else if call.now - serv.msgLastTime < limits.time then
      if serv.msgCounter + 1 = limits.num then
        ({ serv with msgLastTime := call.now, msgCounter := 0 }, some (msgEffects call))
      else ({ serv with msgCounter := serv.msgCounter + 1 }, none)
    else (serv, none)

/-- The server after a sequence of calls of one kind. -/
def after (limits : Limits) (what : What) (serv : FloodVars) (calls : List Call) : FloodVars :=
  calls.foldl (fun serv call => (floodCheck limits what serv call).1) serv

/-- The call reports a flood, it returns 0. -/
def reports (limits : Limits) (what : What) (serv : FloodVars) (call : Call) : Bool :=
  (floodCheck limits what serv call).2.isSome

/-- Some call of the sequence reports a flood. -/
def someReport (limits : Limits) (what : What) : FloodVars → List Call → Bool
  | _, [] => false
  | serv, call :: calls =>
    reports limits what serv call || someReport limits what (floodCheck limits what serv call).1 calls

/-! ## The window -/

/-- The start of the window and the calls counted in it. -/
structure Window where
  start : Int
  counter : Nat
  deriving DecidableEq

def FloodVars.window (serv : FloodVars) : What → Window
  | .ctcp => ⟨serv.ctcpLastTime, serv.ctcpCounter⟩
  | .priv => ⟨serv.msgLastTime, serv.msgCounter⟩

/-- What the first call adds to the counter of its own kind. -/
def What.first : What → Nat
  | .ctcp => 1
  | .priv => 0

/-- A call as it changes the window, and whether it reports. -/
def Window.check (limits : Limits) (what : What) (w : Window) (now : Int) : Window × Bool :=
  if w.start = 0 then (⟨now, w.counter + what.first⟩, false)
  else if now - w.start < limits.time then
    if w.counter + 1 = limits.num then (⟨now, 0⟩, true) else (⟨w.start, w.counter + 1⟩, false)
  else (w, false)

theorem floodCheck_window (limits : Limits) (what : What) (serv : FloodVars) (call : Call) :
    ((floodCheck limits what serv call).1.window what, reports limits what serv call) =
      (serv.window what).check limits what call.now := by
  cases what <;> grind [reports, floodCheck, Window.check, FloodVars.window, What.first]

variable {limits : Limits} {what : What}

def Window.after (limits : Limits) (what : What) (w : Window) (calls : List Call) : Window :=
  calls.foldl (fun w call => (w.check limits what call.now).1) w

/-- Some call reports. -/
def Window.reported (limits : Limits) (what : What) : Window → List Call → Bool
  | _, [] => false
  | w, call :: calls =>
    (w.check limits what call.now).2 || Window.reported limits what (w.check limits what call.now).1 calls

theorem floodCheck_fst (serv : FloodVars) (call : Call) :
    (floodCheck limits what serv call).1.window what = ((serv.window what).check limits what call.now).1 :=
  congrArg Prod.fst (floodCheck_window limits what serv call)

theorem reports_eq (serv : FloodVars) (call : Call) :
    reports limits what serv call = ((serv.window what).check limits what call.now).2 :=
  congrArg Prod.snd (floodCheck_window limits what serv call)

theorem after_window (serv : FloodVars) (calls : List Call) :
    (after limits what serv calls).window what = (serv.window what).after limits what calls := by
  induction calls generalizing serv with
  | nil => rfl
  | cons call calls ih =>
    rw [after, List.foldl_cons, ← after, ih, floodCheck_fst]
    rfl

theorem someReport_eq (serv : FloodVars) (calls : List Call) :
    someReport limits what serv calls = (serv.window what).reported limits what calls := by
  induction calls generalizing serv with
  | nil => rfl
  | cons call calls ih => rw [someReport, Window.reported, ih, reports_eq, floodCheck_fst]

/-! ## Calls in order -/

/-- The clock: past the epoch, and it does not go back. -/
structure InOrder (calls : List Call) : Prop where
  pos : ∀ call ∈ calls, 0 < call.now
  sorted : calls.Pairwise fun a b => a.now ≤ b.now

theorem InOrder.tail {call : Call} {calls : List Call} (h : InOrder (call :: calls)) : InOrder calls :=
  ⟨fun c hc => h.pos c (List.mem_cons_of_mem _ hc), h.sorted.of_cons⟩

theorem InOrder.head_le {call : Call} {calls : List Call} (h : InOrder (call :: calls)) :
    ∀ c ∈ call :: calls, call.now ≤ c.now := by
  intro c hc
  rcases List.mem_cons.1 hc with rfl | hc
  · exact Int.le_refl _
  · exact (List.pairwise_cons.1 h.sorted).1 c hc

theorem InOrder.append {a b : List Call} (h : InOrder (a ++ b)) :
    InOrder a ∧ InOrder b ∧ ∀ x ∈ a, ∀ y ∈ b, x.now ≤ y.now := by
  obtain ⟨ha, hb, hab⟩ := List.pairwise_append.1 h.sorted
  exact ⟨⟨fun c hc => h.pos c (List.mem_append_left _ hc), ha⟩,
    ⟨fun c hc => h.pos c (List.mem_append_right _ hc), hb⟩, hab⟩

/-- `num` calls that follow each other within less than the configured time. -/
structure Burst (limits : Limits) (calls : List Call) : Prop where
  length_eq : calls.length = limits.num
  span : ∀ first ∈ calls.head?, ∀ last ∈ calls.getLast?, last.now - first.now < limits.time

/-- Every burst has a call that reports a flood. -/
def FloodsFound (limits : Limits) (what : What) (calls : List Call) : Prop :=
  ∀ pre burst post, calls = pre ++ burst ++ post → Burst limits burst →
    someReport limits what (after limits what {} pre) burst = true

/-- A call that reports a flood is the last of a burst. -/
def ReportsJustified (limits : Limits) (what : What) (calls : List Call) : Prop :=
  ∀ pre call post, calls = pre ++ call :: post → reports limits what (after limits what {} pre) call = true →
    ∃ pre' burst, pre ++ [call] = pre' ++ burst ∧ Burst limits burst

/-- The burst is one of CTCPs, and at its last call the window that is open is still the current one. -/
def InTime (limits : Limits) (what : What) (calls : List Call) : Prop :=
  ∀ pre burst post, calls = pre ++ burst ++ post → Burst limits burst →
    what = .ctcp ∧ ∀ last ∈ burst.getLast?,
      last.now - (after limits what {} (pre ++ burst.dropLast)).ctcpLastTime < limits.time

/-! ## Steps -/

section Steps

variable {w : Window} {now : Int}

theorem check_first (h : w.start = 0) : w.check limits what now = (⟨now, w.counter + what.first⟩, false) := by
  rw [Window.check, if_pos h]

theorem check_closed (h : w.start ≠ 0) (hlate : limits.time ≤ now - w.start) :
    w.check limits what now = (w, false) := by
  rw [Window.check, if_neg h, if_neg (by omega)]

theorem check_report (h : w.start ≠ 0) (hopen : now - w.start < limits.time) (hnum : w.counter + 1 = limits.num) :
    w.check limits what now = (⟨now, 0⟩, true) := by
  rw [Window.check, if_neg h, if_pos hopen, if_pos hnum]

theorem check_count (h : w.start ≠ 0) (hopen : now - w.start < limits.time) (hnum : w.counter + 1 ≠ limits.num) :
    w.check limits what now = (⟨w.start, w.counter + 1⟩, false) := by
  rw [Window.check, if_neg h, if_pos hopen, if_neg hnum]

end Steps

/-! ## Runs -/

section Runs

variable {w : Window} {calls : List Call}

/-- After a call past its end a window stays as it is, and nothing is reported. -/
theorem closed_run (h : w.start ≠ 0) (hlate : ∀ call ∈ calls, limits.time ≤ call.now - w.start) :
    w.after limits what calls = w ∧ w.reported limits what calls = false := by
  induction calls with
  | nil => exact ⟨rfl, rfl⟩
  | cons call calls ih =>
    obtain ⟨hafter, hreported⟩ := ih fun c hc => hlate c (List.mem_cons_of_mem _ hc)
    have hcheck : w.check limits what call.now = (w, false) := check_closed h (hlate call List.mem_cons_self)
    rw [Window.after, List.foldl_cons, ← Window.after, Window.reported, hcheck]
    exact ⟨hafter, hreported⟩

/-- Calls that end in an open window, and with those counted before are `num`, hold a report. -/
theorem open_run (hpos : 0 < w.start) (hcalls : InOrder calls) (hcount : w.counter < limits.num)
    (hnum : limits.num ≤ w.counter + calls.length)
    (hopen : ∀ last ∈ calls.getLast?, last.now - (w.after limits what calls.dropLast).start < limits.time) :
    w.reported limits what calls = true := by
  induction calls generalizing w with
  | nil =>
    simp only [List.length_nil] at hnum
    omega
  | cons call calls ih =>
    have hrest : InOrder calls := hcalls.tail
    by_cases hlate : limits.time ≤ call.now - w.start
    · -- the window is over, and stays so until the last call
      exfalso
      obtain ⟨last, hlast⟩ : ∃ last, (call :: calls).getLast? = some last :=
        ⟨_, List.getLast?_eq_some_getLast (by simp)⟩
      have hall : ∀ c ∈ call :: calls, limits.time ≤ c.now - w.start := by
        intro c hc
        have := hcalls.head_le c hc
        omega
      have hafter : w.after limits what (call :: calls).dropLast = w :=
        (closed_run (by omega) fun c hc => hall c (List.dropLast_subset _ hc)).1
      have := hopen last hlast
      have := hall last (List.mem_of_getLast? hlast)
      rw [hafter] at *
      omega
    · by_cases hfull : w.counter + 1 = limits.num
      · rw [Window.reported, check_report (by omega) (by omega) hfull]
        rfl
      · have hcheck : w.check limits what call.now = (⟨w.start, w.counter + 1⟩, false) :=
          check_count (by omega) (by omega) hfull
        have hne : calls ≠ [] := by
          rintro rfl
          simp only [List.length_cons, List.length_nil] at hnum
          omega
        rw [Window.reported, hcheck]
        refine ih hpos hrest ?_ ?_ ?_
        · show w.counter + 1 < limits.num
          omega
        · simp only [List.length_cons] at hnum ⊢
          omega
        · intro last hlast
          have := hopen last (by rwa [List.getLast?_cons_of_ne_nil hne])
          rwa [List.dropLast_cons_of_ne_nil hne, Window.after, List.foldl_cons, hcheck] at this

theorem after_append (w : Window) (a b : List Call) :
    w.after limits what (a ++ b) = (w.after limits what a).after limits what b := List.foldl_append

theorem reported_append (w : Window) (a b : List Call) :
    w.reported limits what (a ++ b) =
      (w.reported limits what a || (w.after limits what a).reported limits what b) := by
  induction a generalizing w with
  | nil => rfl
  | cons call a ih =>
    rw [List.cons_append, Window.reported, ih, ← Bool.or_assoc]
    rfl

theorem check_start (limits : Limits) (what : What) (h : w.start ≠ 0) (now : Int) :
    (w.check limits what now).1.start = w.start ∧ (w.check limits what now).2 = false ∨
      (w.check limits what now).1.start = now := by
  by_cases hlate : limits.time ≤ now - w.start
  · rw [check_closed h hlate]
    exact .inl ⟨rfl, rfl⟩
  · by_cases hfull : w.counter + 1 = limits.num
    · rw [check_report h (by omega) hfull]
      exact .inr rfl
    · rw [check_count h (by omega) hfull]
      exact .inl ⟨rfl, rfl⟩

/-- The window starts where it did, or at one of the calls: the latter if one of them reports. -/
theorem after_start (limits : Limits) (what : What) (hpos : 0 < w.start) (hcalls : ∀ call ∈ calls, 0 < call.now) :
    (w.after limits what calls).start = w.start ∧ w.reported limits what calls = false ∨
      ∃ call ∈ calls, (w.after limits what calls).start = call.now := by
  induction calls generalizing w with
  | nil => exact .inl ⟨rfl, rfl⟩
  | cons call calls ih =>
    have hrest : ∀ c ∈ calls, 0 < c.now := fun c hc => hcalls c (List.mem_cons_of_mem _ hc)
    rw [Window.reported, Window.after, List.foldl_cons, ← Window.after]
    have hcall : 0 < call.now := hcalls call List.mem_cons_self
    rcases check_start limits what (by omega : w.start ≠ 0) call.now with ⟨hstart, hquiet⟩ | hstart
    · have hpos' : 0 < (w.check limits what call.now).1.start := by omega
      rcases ih hpos' hrest with ⟨hsame, hnone⟩ | ⟨c, hc, hsame⟩
      · exact .inl ⟨hsame.trans hstart, by rw [hquiet, hnone, Bool.or_self]⟩
      · exact .inr ⟨c, List.mem_cons_of_mem _ hc, hsame⟩
    · have hpos' : 0 < (w.check limits what call.now).1.start := by omega
      rcases ih hpos' hrest with ⟨hsame, -⟩ | ⟨c, hc, hsame⟩
      · exact .inr ⟨call, List.mem_cons_self, hsame.trans hstart⟩
      · exact .inr ⟨c, List.mem_cons_of_mem _ hc, hsame⟩

/-- Too few calls to fill the counter leave the window open where it was. -/
theorem few_run (hpos : w.start ≠ 0) (hfew : w.counter + calls.length < limits.num) :
    w.reported limits what calls = false ∧ (w.after limits what calls).start = w.start := by
  induction calls generalizing w with
  | nil => exact ⟨rfl, rfl⟩
  | cons call calls ih =>
    rw [List.length_cons] at hfew
    rw [Window.reported, Window.after, List.foldl_cons, ← Window.after]
    by_cases hlate : limits.time ≤ call.now - w.start
    · have hfew' : w.counter + calls.length < limits.num := by omega
      rw [check_closed hpos hlate]
      exact ih hpos hfew'
    · have hfew' : w.counter + 1 + calls.length < limits.num := by omega
      rw [check_count hpos (by omega) (by omega)]
      exact ih hpos hfew'

end Runs

/-! ## What the window knows -/

/-- After `pre`: nothing was called yet; or the window started at one of the calls, and it is over or its counter
stands for the last ones. -/
def Counted (limits : Limits) (pre : List Call) (w : Window) : Prop :=
  w.counter < limits.num ∧
    (pre = [] ∧ w = ⟨0, 0⟩ ∨
      (∃ call ∈ pre, w.start = call.now) ∧
        ((∃ last ∈ pre, limits.time ≤ last.now - w.start) ∨
          ∃ old counted, pre = old ++ counted ∧ counted.length = w.counter ∧ ∀ call ∈ counted, w.start ≤ call.now))

theorem fresh_window (what : What) : ({} : FloodVars).window what = ⟨0, 0⟩ := by cases what <;> rfl

section Count

variable {pre : List Call} {call : Call} {w : Window}

theorem Counted.first (call : Call) :
    Counted limits [call] ((⟨0, 0⟩ : Window).check limits what call.now).1 := by
  have htwo := limits.two_le
  rw [check_first rfl]
  refine ⟨?_, .inr ⟨⟨call, List.mem_cons_self, rfl⟩, .inr ?_⟩⟩
  · cases what <;> simp only [What.first] <;> omega
  · cases what with
    | ctcp => exact ⟨[], [call], rfl, rfl, by simp⟩
    | priv => exact ⟨[call], [], rfl, rfl, by simp⟩

/-- The window of an earlier call is over, or counts the last calls, which were all made in it. -/
theorem Counted.at_call (h : Counted limits pre w) (hcalls : InOrder (pre ++ [call])) (hne : w ≠ ⟨0, 0⟩) :
    0 < w.start ∧ w.start ≤ call.now ∧
      (call.now - w.start < limits.time →
        ∃ old counted, pre = old ++ counted ∧ counted.length = w.counter ∧ ∀ c ∈ counted, w.start ≤ c.now) := by
  have hbefore := hcalls.append.2.2
  obtain ⟨-, ⟨-, rfl⟩ | ⟨⟨c, hc, hstart⟩, hknown⟩⟩ := h
  · exact absurd rfl hne
  · have hpos := hcalls.pos c (List.mem_append_left _ hc)
    have hle := hbefore c hc call List.mem_cons_self
    refine ⟨by omega, by omega, fun hopen => ?_⟩
    obtain ⟨last, hlast, hover⟩ | hcounted := hknown
    · have := hbefore last hlast call List.mem_cons_self
      omega
    · exact hcounted

theorem Counted.step (h : Counted limits pre w) (hcalls : InOrder (pre ++ [call])) :
    Counted limits (pre ++ [call]) (w.check limits what call.now).1 := by
  have htwo := limits.two_le
  by_cases hfresh : w = ⟨0, 0⟩
  · subst hfresh
    obtain ⟨-, ⟨rfl, -⟩ | ⟨⟨c, hc, hstart⟩, -⟩⟩ := h
    · exact Counted.first call
    · have := hcalls.pos c (List.mem_append_left _ hc)
      simp only at hstart
      omega
  · obtain ⟨hpos, hle, hopen⟩ := h.at_call hcalls hfresh
    have hcall : call ∈ pre ++ [call] := by simp
    obtain ⟨c, hc, hstart⟩ : ∃ c ∈ pre, w.start = c.now := by
      obtain ⟨-, ⟨-, rfl⟩ | ⟨hstart, -⟩⟩ := h
      · exact absurd rfl hfresh
      · exact hstart
    by_cases hlate : limits.time ≤ call.now - w.start
    · rw [check_closed (by omega) hlate]
      exact ⟨h.1, .inr ⟨⟨c, List.mem_append_left _ hc, hstart⟩, .inl ⟨call, hcall, hlate⟩⟩⟩
    · obtain ⟨old, counted, rfl, hlen, hin⟩ := hopen (by omega)
      by_cases hfull : w.counter + 1 = limits.num
      · rw [check_report (by omega) (by omega) hfull]
        exact ⟨by simp only; omega, .inr ⟨⟨call, hcall, rfl⟩, .inr ⟨_, [], (List.append_nil _).symm, rfl, by simp⟩⟩⟩
      · rw [check_count (by omega) (by omega) hfull]
        have hcount := h.1
        refine ⟨by simp only; omega, .inr ⟨⟨c, List.mem_append_left _ hc, hstart⟩, .inr
          ⟨old, counted ++ [call], List.append_assoc .., by simp [hlen], ?_⟩⟩⟩
        intro c' hc'
        rcases List.mem_append.1 hc' with hc' | hc'
        · exact hin c' hc'
        · rw [List.mem_singleton.1 hc']
          exact hle

theorem counted_after (hcalls : InOrder pre) : Counted limits pre ((⟨0, 0⟩ : Window).after limits what pre) := by
  induction pre using List.reverseRecOn with
  | nil => exact ⟨by have := limits.two_le; simp only [Window.after, List.foldl_nil]; omega, .inl ⟨rfl, rfl⟩⟩
  | append_singleton pre call ih =>
    rw [after_append]
    exact (ih hcalls.append.1).step hcalls

/-- A report closes a burst. -/
theorem Counted.burst (h : Counted limits pre w) (hcalls : InOrder (pre ++ [call]))
    (hreport : (w.check limits what call.now).2 = true) :
    ∃ old burst, pre ++ [call] = old ++ burst ∧ Burst limits burst := by
  have hstart : w.start ≠ 0 := fun hzero => by
    rw [check_first hzero] at hreport
    cases hreport
  obtain ⟨hpos, hle, hopen⟩ := h.at_call hcalls (by rintro rfl; exact hstart rfl)
  by_cases hlate : limits.time ≤ call.now - w.start
  · rw [check_closed hstart hlate] at hreport
    cases hreport
  · by_cases hfull : w.counter + 1 = limits.num
    · obtain ⟨old, counted, rfl, hlen, hin⟩ := hopen (by omega)
      refine ⟨old, counted ++ [call], List.append_assoc .., ⟨by simp [hlen, hfull], ?_⟩⟩
      intro first hfirst last hlast
      obtain rfl : call = last := by simpa using hlast
      have hfirst : w.start ≤ first.now := by
        rcases List.mem_append.1 (List.mem_of_head? hfirst) with hmem | hmem
        · exact hin first hmem
        · rw [List.mem_singleton.1 hmem]
          exact hle
      omega
    · rw [check_count hstart (by omega) hfull] at hreport
      cases hreport

end Count

/-! ## The result -/

/-- A call reports a flood only after `num` calls, itself included, within the configured time. -/
theorem report_justified {calls : List Call} (hcalls : InOrder calls) : ReportsJustified limits what calls := by
  rintro pre call post rfl hreport
  rw [reports_eq, after_window, fresh_window] at hreport
  have hpre : InOrder (pre ++ [call]) := by
    rw [List.append_cons] at hcalls
    exact hcalls.append.1
  exact (counted_after hpre.append.1).burst hpre hreport

/-- A burst of CTCPs that ends in an open window holds a report. -/
theorem reported_of_open {pre burst : List Call} (hcalls : InOrder (pre ++ burst))
    (hlen : burst.length = limits.num) (hopen : ∀ last ∈ burst.getLast?,
      last.now - ((⟨0, 0⟩ : Window).after limits .ctcp (pre ++ burst.dropLast)).start < limits.time) :
    ((⟨0, 0⟩ : Window).after limits .ctcp pre).reported limits .ctcp burst = true := by
  have htwo := limits.two_le
  obtain ⟨hpre, hburst, -⟩ := hcalls.append
  have hcounted : Counted limits pre ((⟨0, 0⟩ : Window).after limits .ctcp pre) := counted_after hpre
  cases pre with
  | nil =>
    obtain ⟨c, rest, rfl⟩ : ∃ c rest, burst = c :: rest := by
      cases burst with
      | nil => simp at hlen; omega
      | cons c rest => exact ⟨c, rest, rfl⟩
    rw [List.length_cons] at hlen
    have hne : rest ≠ [] := by
      rintro rfl
      simp only [List.length_nil] at hlen
      omega
    have hfirst : (⟨0, 0⟩ : Window).check limits .ctcp c.now = (⟨c.now, 1⟩, false) := check_first rfl
    have hpos : 0 < c.now := hburst.pos c List.mem_cons_self
    show (⟨0, 0⟩ : Window).reported limits .ctcp (c :: rest) = true
    rw [Window.reported, hfirst, Bool.false_or]
    refine open_run hpos hburst.tail (by simp only; omega) (by simp only; omega) fun last hlast => ?_
    have := hopen last (by rwa [List.getLast?_cons_of_ne_nil hne])
    rwa [List.nil_append, List.dropLast_cons_of_ne_nil hne, Window.after, List.foldl_cons, hfirst] at this
  | cons c pre =>
    have hpos : 0 < ((⟨0, 0⟩ : Window).after limits .ctcp (c :: pre)).start := by
      obtain ⟨-, ⟨hnil, -⟩ | ⟨⟨c', hc', hstart⟩, -⟩⟩ := hcounted
      · cases hnil
      · rw [hstart]
        exact hpre.pos c' hc'
    refine open_run hpos hburst hcounted.1 (by omega) fun last hlast => ?_
    rw [← after_append]
    exact hopen last hlast

/-- A burst that ends when the window is over holds none. -/
theorem quiet_of_closed {pre burst : List Call} (hcalls : InOrder (pre ++ burst)) (hburst : Burst limits burst)
    {last : Call} (hlast : burst.getLast? = some last)
    (hclosed : limits.time ≤
      last.now - ((⟨0, 0⟩ : Window).after limits what (pre ++ burst.dropLast)).start) :
    ((⟨0, 0⟩ : Window).after limits what pre).reported limits what burst = false := by
  have htwo := limits.two_le
  obtain ⟨hpre, hin, -⟩ := hcalls.append
  obtain ⟨init, rfl⟩ := List.getLast?_eq_some_iff.1 hlast
  rw [List.dropLast_concat, after_append] at hclosed
  obtain ⟨first, rest, rfl⟩ : ∃ first rest, init = first :: rest := by
    cases init with
    | nil =>
      have := hburst.length_eq
      simp only [List.nil_append, List.length_singleton] at this
      omega
    | cons first rest => exact ⟨first, rest, rfl⟩
  have hspan := hburst.span first rfl last hlast
  have hfirst : ∀ c ∈ first :: rest, first.now ≤ c.now ∧ 0 < c.now := fun c hc =>
    ⟨hin.append.1.head_le c hc, hin.append.1.pos c hc⟩
  -- a window that started in the burst is still open at its last call
  have hbefore : ∀ c ∈ first :: rest,
      (((⟨0, 0⟩ : Window).after limits what pre).after limits what (first :: rest)).start ≠ c.now := by
    intro c hc hstart
    have := (hfirst c hc).1
    omega
  have hcounted : Counted limits pre ((⟨0, 0⟩ : Window).after limits what pre) := counted_after hpre
  obtain ⟨-, ⟨rfl, -⟩ | ⟨⟨c, hc, hstart⟩, -⟩⟩ := hcounted
  · exfalso
    have hcheck : (⟨0, 0⟩ : Window).check limits what first.now = (⟨first.now, 0 + what.first⟩, false) :=
      check_first rfl
    have hpos := (hfirst first List.mem_cons_self).2
    rcases after_start limits what (w := ⟨first.now, 0 + what.first⟩) hpos
      (fun c hc => (hfirst c (List.mem_cons_of_mem _ hc)).2) with ⟨hsame, -⟩ | ⟨c, hc, hsame⟩
    · refine hbefore first List.mem_cons_self ?_
      show ((⟨0, 0⟩ : Window).after limits what (first :: rest)).start = first.now
      rwa [Window.after, List.foldl_cons, hcheck]
    · refine hbefore c (List.mem_cons_of_mem _ hc) ?_
      show ((⟨0, 0⟩ : Window).after limits what (first :: rest)).start = c.now
      rwa [Window.after, List.foldl_cons, hcheck]
  · have hpos : 0 < ((⟨0, 0⟩ : Window).after limits what pre).start := by
      rw [hstart]
      exact hpre.pos c hc
    rcases after_start limits what hpos (fun c hc => (hfirst c hc).2) with ⟨hsame, hquiet⟩ | ⟨c, hc, hsame⟩
    · rw [reported_append, hquiet, Window.reported, check_closed (by omega) hclosed]
      rfl
    · exact absurd hsame (hbefore c hc)

/-- The first messages of a connection are one too few for a report. -/
theorem priv_first_quiet {first : List Call} (hcalls : InOrder first) (hlen : first.length = limits.num) :
    (⟨0, 0⟩ : Window).reported limits .priv first = false ∧
      ∀ c ∈ first.head?, ((⟨0, 0⟩ : Window).after limits .priv first).start = c.now := by
  have htwo := limits.two_le
  cases first with
  | nil => simp only [List.length_nil] at hlen; omega
  | cons c rest =>
    have hpos : 0 < c.now := hcalls.pos c List.mem_cons_self
    rw [List.length_cons] at hlen
    have hfirst : (⟨0, 0⟩ : Window).check limits .priv c.now = (⟨c.now, 0⟩, false) := check_first rfl
    obtain ⟨hquiet, hstart⟩ : (⟨c.now, 0⟩ : Window).reported limits .priv rest = false ∧
        ((⟨c.now, 0⟩ : Window).after limits .priv rest).start = c.now :=
      few_run (by simp only; omega) (by simp only; omega)
    refine ⟨?_, fun c' hc' => ?_⟩
    · rw [Window.reported, hfirst, Bool.false_or, hquiet]
    · obtain rfl : c = c' := by simpa using hc'
      rwa [Window.after, List.foldl_cons, hfirst]

/-- If every burst of messages is found there is none. -/
theorem no_priv_burst {calls : List Call} (hcalls : InOrder calls) (hfound : FloodsFound limits .priv calls)
    {pre burst post : List Call} (heq : calls = pre ++ burst ++ post) (hburst : Burst limits burst) : False := by
  have htwo := limits.two_le
  have hlong : limits.num ≤ calls.length := by
    rw [heq, List.length_append, List.length_append, hburst.length_eq]
    omega
  have hsplit : calls = calls.take limits.num ++ calls.drop limits.num := (List.take_append_drop _ _).symm
  have hlen : (calls.take limits.num).length = limits.num := List.length_take_of_le hlong
  obtain ⟨hfirst, hrest, hbefore⟩ := InOrder.append (hsplit ▸ hcalls)
  obtain ⟨hquiet, hstart⟩ := priv_first_quiet hfirst hlen
  have hnot : ¬ Burst limits (calls.take limits.num) := fun hb => by
    have := hfound [] _ _ hsplit hb
    rw [someReport_eq, after_window, fresh_window] at this
    exact absurd (this.symm.trans hquiet) (by decide)
  obtain ⟨first, hhead, last, hlast, hspan⟩ : ∃ first ∈ (calls.take limits.num).head?,
      ∃ last ∈ (calls.take limits.num).getLast?, limits.time ≤ last.now - first.now := by
    by_contra hno
    exact hnot ⟨hlen, fun first hhead last hlast => Int.not_le.1 fun hspan => hno ⟨first, hhead, last, hlast, hspan⟩⟩
  have hpos : 0 < first.now := hfirst.pos first (List.mem_of_head? hhead)
  -- the last of the first `num` calls came too late, so all that follow do
  have hclosed : ((⟨0, 0⟩ : Window).after limits .priv (calls.take limits.num)).reported limits .priv
      (calls.drop limits.num) = false := by
    refine (closed_run ?_ fun c hc => ?_).2
    · rw [hstart first hhead]
      omega
    · have := hbefore last (List.mem_of_getLast? hlast) c hc
      rw [hstart first hhead]
      omega
  have hsilent : (⟨0, 0⟩ : Window).reported limits .priv calls = false := by
    rw [hsplit, reported_append, hquiet, hclosed]
    rfl
  have hreport := hfound pre burst post heq hburst
  rw [someReport_eq, after_window, fresh_window] at hreport
  rw [heq, reported_append, reported_append, hreport, Bool.or_true, Bool.true_or] at hsilent
  cases hsilent

/-- Every burst is found, and every report is justified, if and only if each burst is one of CTCPs whose last call
comes before the window is over. -/
theorem floods_found_iff {calls : List Call} (hcalls : InOrder calls) :
    FloodsFound limits what calls ∧ ReportsJustified limits what calls ↔ InTime limits what calls := by
  constructor
  · rintro ⟨hfound, -⟩ pre burst post heq hburst
    cases what with
    | priv => exact (no_priv_burst hcalls hfound heq hburst).elim
    | ctcp =>
      refine ⟨rfl, fun last hlast => ?_⟩
      by_contra hclosed
      have hreport := hfound pre burst post heq hburst
      subst heq
      rw [someReport_eq, after_window, fresh_window, quiet_of_closed hcalls.append.1 hburst hlast] at hreport
      · cases hreport
      · rw [← fresh_window .ctcp, ← after_window]
        exact Int.not_lt.1 hclosed
  · intro htime
    refine ⟨?_, report_justified hcalls⟩
    intro pre burst post heq hburst
    obtain ⟨rfl, hopen⟩ := htime pre burst post heq hburst
    subst heq
    rw [someReport_eq, after_window, fresh_window]
    refine reported_of_open hcalls.append.1 hburst.length_eq fun last hlast => ?_
    rw [← fresh_window .ctcp, ← after_window]
    exact hopen last hlast

/-- Three calls within ten seconds. -/
def threeInTen : Limits := ⟨3, 10, by decide, by decide⟩

def callAt (now : Int) : Call := ⟨now, bytes "eve", bytes "eve@host"⟩

/-- A flood of CTCPs, found at its third call. -/
theorem ctcp_flood_found :
    FloodsFound threeInTen .ctcp ([100, 101, 102, 103].map callAt) ∧
      ReportsJustified threeInTen .ctcp ([100, 101, 102, 103].map callAt) := by
  refine (floods_found_iff ⟨by decide, by decide⟩).2 fun pre burst post heq hburst => ⟨rfl, ?_⟩
  have hlen := congrArg List.length heq
  rw [List.length_append, List.length_append, hburst.length_eq] at hlen
  have hpre : pre = ([100, 101, 102, 103].map callAt).take pre.length := by
    rw [heq, List.append_assoc, List.take_left]
  have htail : burst = (([100, 101, 102, 103].map callAt).drop pre.length).take threeInTen.num := by
    rw [heq, List.append_assoc, List.drop_left, List.take_left' hburst.length_eq]
  have hcases : pre.length = 0 ∨ pre.length = 1 := by
    have hnum : threeInTen.num = 3 := rfl
    simp only [List.length_map, List.length_cons, List.length_nil] at hlen
    omega
  rcases hcases with h | h <;> rw [h] at hpre htail <;> subst hpre htail <;> decide

/-- A single CTCP, and a minute later a flood that nothing reports. -/
theorem ctcp_flood_missed :
    InOrder ([100, 160, 161, 162].map callAt) ∧ ¬ FloodsFound threeInTen .ctcp ([100, 160, 161, 162].map callAt) := by
  refine ⟨⟨by decide, by decide⟩, fun h => ?_⟩
  have hreport := h [callAt 100] ([160, 161, 162].map callAt) [] rfl ⟨rfl, by decide⟩
  exact absurd hreport (by decide)

end PoxChat.Inbound.Flood
