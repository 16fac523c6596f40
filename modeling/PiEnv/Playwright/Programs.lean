import PiEnv.Playwright.Actions

/-!
# What programs ask

The parts of actions that ask nothing, and those that only look for a connection
or make one.
-/

namespace PiEnv.Playwright

open Js
open Effects

variable {setup : Setup} {ok : Op → Prop} {α : Type} {x : Action α}

theorem await_asks (hx : Asks ok x) (htick : ok .tick) :
    Asks ok (await x) :=
  Prog.Only.bind hx fun _ => ⟨htick, fun _ => trivial⟩

theorem whenTrue_asks {condition : Bool} {x : Action Unit} (hx : Asks ok x) :
    Asks ok (whenTrue condition x) := by
  unfold whenTrue
  split
  · exact hx
  · exact Asks.ret

theorem await_yields {guard : History Op Res → Op → Prop} {P : α → History Op Res → Prop}
    {h : History Op Res} (htick : ∀ h, guard h .tick)
    (hx : Yields guard x (fun a h' => P a (⟨.tick, ()⟩ :: h')) h) : Yields guard (await x) P h :=
  Guarded.bind (Guarded.mono hx fun _ h' _ hr => ⟨htick h', fun _ a ha => hr a ha⟩)

-- -----
-- Nothing
-- -----

theorem targetByName_asks {name : Str} : Asks ok (targetByName setup name) := by
  unfold targetByName
  split
  · exact Asks.ret
  · exact Asks.throws

theorem failOf_asks {page : Page} {outcome : Except Str α} : Asks ok (failOf page outcome) := by
  cases outcome with
  | ok a => exact Asks.ret
  | error e => exact Asks.throws

theorem located_asks {params : LocatorParams} : Asks ok (located setup params) := by
  unfold located
  split
  · exact Asks.ret
  · exact Asks.throws

theorem requireTarget_asks {name : Str} {target : Option Str} : Asks ok (requireTarget name target) := by
  unfold requireTarget
  split
  · exact Asks.ret
  · exact Asks.throws

theorem waitOperation_asks {args : BrowserArgs} :
    Asks ok (waitOperation setup args) := by
  unfold waitOperation
  split
  · exact Asks.ret
  · split
    · exact Asks.bind located_asks fun _ => Asks.ret
    · exact Asks.ret

theorem downloadTrigger_asks {args : BrowserArgs} : Asks ok (downloadTrigger setup args) := by
  unfold downloadTrigger
  split
  · exact Asks.bind located_asks fun _ => Asks.ret
  · exact Asks.ret

-- -----
-- Connections
-- -----

def Op.Connects : Op → Prop
  | .now | .connection _ | .isConnectionHealthy _ | .touch _ | .nextConnection _ | .evict .. | .tick
  | .load | .connectOverCDP _ | .close _ | .never => True
  | _ => False

abbrev Connects (x : Action α) : Prop := Asks Op.Connects x

namespace Connects

theorem await (hx : Connects x) : Connects (await x) := await_asks hx trivial

theorem closing {dropped : Option BrowserId} : Connects (closing dropped) := by
  cases dropped with
  | none => exact Asks.ret
  | some browser => exact Asks.bind (Asks.ask trivial) fun _ => Asks.ret

theorem evictConnection {target : Str} {reason : Stale} : Connects (evictConnection target reason) :=
  Asks.bind (Asks.ask trivial) fun _ => closing

theorem connect {target : BrowserTarget} : Connects (connect setup target) := by
  refine Asks.bind (Asks.ask trivial) fun loaded => ?_
  cases loaded with
  | error e => exact Asks.throws
  | ok =>
    refine Asks.bind (Asks.ask trivial) fun connected => ?_
    cases connected with
    | error e => exact Asks.throws
    | ok => exact Asks.ret

theorem ensureConnected {target : BrowserTarget} : Connects (ensureConnected setup target) := by
  refine Asks.bind (Asks.ask trivial) fun existing => ?_
  cases existing with
  | none => exact connect
  | some browser =>
    refine Asks.bind (Asks.ask trivial) fun healthy => ?_
    split
    · exact Asks.ask trivial
    · exact Asks.bind evictConnection.await fun _ => connect

theorem evictStale {now : Nat} {target : Str} {connection : BrowserConnection} :
    Connects (evictStale now target connection) := by
  refine Asks.bind (Asks.ask trivial) fun healthy => ?_
  split
  · exact evictConnection.await
  · exact whenTrue_asks evictConnection.await

theorem visit {now rounds : Nat} {after : Option Nat} : Connects (visit now rounds after) := by
  induction rounds generalizing after with
  | zero => exact Asks.ask trivial
  | succ rounds ih =>
    refine Asks.bind (Asks.ask trivial) fun next => ?_
    cases next with
    | none => exact Asks.ret
    | some entry => exact Asks.bind evictStale fun _ => ih

theorem cleanupStaleConnections {rounds : Nat} : Connects (cleanupStaleConnections rounds) :=
  Asks.bind (Asks.ask trivial) fun _ => visit

end Connects

end PiEnv.Playwright
