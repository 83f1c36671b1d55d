import RecordSource.Command.Ending
import Std.Time.DateTime.Timestamp

/-!
The command line. It stands on no network, so a query finds every host out of reach; filters are shown in full.
-/
open RecordSource

def main (words : List String) : IO UInt32 := do
  let url? ← IO.getEnv "SLQUERY_URL"
  let apiKey? ← IO.getEnv "SLQUERY_API_KEY"
  let now ← Std.Time.Timestamp.now
  let ending := Command.carryOut url? apiKey? words now.toMillisecondsSinceUnixEpoch.toInt.toNat
    (Http.Host.outOfReach (σ := Unit)) ()
  IO.print ending.out
  IO.eprint ending.err
  return ending.code.toUInt32
