import ChirpGateway.Chirp.Engine

/-!
# The CHIRP registry

Who worked, for how long and how much: the registry of `datum_chirp.h:24-32` and
the candidates `chirp_candidates` takes from it (`datum_chirp.c:28-90`). Times are
seconds, work and thresholds exact rationals.
-/

namespace ChirpGateway

/-- `CHIRP_WINDOW_SECS`. -/
def chirpWindowSecs : Nat := 24 * 3600

/-- `chirp_share_t`. -/
structure ChirpShare where
  ts : UInt64
  work : Rat
  deriving DecidableEq

/-- `chirp_miner_t`. -/
structure ChirpMiner where
  addr : ChirpAddr
  firstSeen : UInt64
  lastSeen : UInt64
  activeSecs : Rat
  shares : List ChirpShare
  deriving DecidableEq

/-- What an operator can set in the environment: four numbers, where they are set
    and not empty, and the switch for the snapshot. -/
structure ChirpEnv where
  snapshotCommit : Bool
  minDays : Option Rat
  minPower : Option Rat
  daysFull : Option Rat
  powerFull : Option Rat

/-- `chirp_env_or` and the guard behind it: the denominators are positive. -/
def chirpFullOr (value : Option Rat) (dflt : Rat) : Rat :=
  if value.getD dflt ≤ 0 then dflt else value.getD dflt

namespace ChirpEnv

/-- `min_days`, with `CHIRP_MIN_DAYS` as the fallback. -/
def chirpMinDays (env : ChirpEnv) : Rat := env.minDays.getD 7

/-- `min_power`, with `CHIRP_MIN_POWER` as the fallback. -/
def chirpMinPower (env : ChirpEnv) : Rat := env.minPower.getD 5000000

/-- `days_full`, with `CHIRP_DAYS_FULL` as the fallback. -/
def chirpDaysFull (env : ChirpEnv) : Rat := chirpFullOr env.daysFull 30

/-- `power_full`, with `CHIRP_POWER_FULL` as the fallback. -/
def chirpPowerFull (env : ChirpEnv) : Rat := chirpFullOr env.powerFull 2000000000

end ChirpEnv

/-- `cutoff` in `window_work`. -/
def windowCutoff (now : UInt64) : Nat := now.toNat - chirpWindowSecs

/-- `window_work`: the pruned member and the work left in the window. -/
def windowWork (m : ChirpMiner) (now : UInt64) : ChirpMiner × Rat :=
  let shares := m.shares.filter fun share => windowCutoff now ≤ share.ts.toNat
  ({ m with shares }, (shares.map ChirpShare.work).sum)

/-- One turn of the loop in `chirp_candidates`: the member's entry, if it passes
    the gate. -/
def chirpCandidate (env : ChirpEnv) (m : ChirpMiner) (now : UInt64) : Option ChirpCand :=
  let days := m.activeSecs / 86400
  let power := (windowWork m now).2
  if days < env.chirpMinDays || power < env.chirpMinPower then
    none
  else
    let dn := min (days / env.chirpDaysFull) 1
    let pn := min (power / env.chirpPowerFull) 1
    some { addr := m.addr, weight := (dn + pn) / 2, activeSecs := m.activeSecs, power }

/-- `chirp_candidates` into an array that has room for the whole registry: the
    pruned registry and the candidates. -/
def chirpCandidates (env : ChirpEnv) (registry : List ChirpMiner) (now : UInt64) :
    List ChirpMiner × List ChirpCand :=
  (registry.map fun m => (windowWork m now).1,
    registry.filterMap fun m => chirpCandidate env m now)

end ChirpGateway
