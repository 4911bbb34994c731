import Stroemnet.SwapProtocol

/-! # The configuration of a node

A daemon reads one configuration for all its channels. It is checked and split into what the
handler and each channel need; prices and percentages are left abstract. -/
namespace Stroemnet.Daemon

inductive StroemnetError
  | env (text : String)
deriving DecidableEq

structure ChannelConfig where
  privateKey : Option String
  participateCcr : Bool
  minConfirmations : Option UInt64
  rpcUrl : Option String
  htlcAddress : Option String
  gasPayment : Option String
  networkId : Option String
  coinbaseMaturity : Option UInt64
  scriptTtlSecs : Option UInt64
deriving DecidableEq

structure SocketAddrV4 where
  ip : BitVec 32
  port : UInt16
deriving DecidableEq

/-- The configuration as it is read, with the channels in the order they are gone over. -/
structure DaemonConfig (F : Type) where
  bindAddr : SocketAddrV4
  externalHostname : String
  minTradeUsd : Option F
  maxTradeUsd : Option F
  spreadPercent : Option F
  priceOracleUpdateIntervalSecs : UInt64
  commitBufferSecs : UInt64
  bootstrapPeers : List String
  lp : Bool
  channels : List (String × ChannelConfig)

/-- The part of a channel's settings that depends on the kind of its chain. -/
inductive ChainSettings
  | evm (rpcUrl htlcAddress : String)
  | kaspa (networkId : String) (wrpcUrl : Option String)
      (coinbaseMaturity scriptTtlSecs : Option UInt64)
deriving DecidableEq

structure ChannelSpec where
  settings : ChainSettings
  participateCcr : Bool
  minimumBlockConfirmations : Option UInt64
  gasPayment : Option String
  lpPrivateKey : Option String
deriving DecidableEq

structure HandlerConfig (F : Type) where
  minTradeUsd : F
  maxTradeUsd : F
  spreadPercent : F
  commitBufferSecs : UInt64

inductive Role
  | lp | observer
deriving DecidableEq

structure NodeConfig (F : Type) where
  handler : HandlerConfig F
  channels : List (ChannelId × ChannelSpec)
  bindAddr : Option SocketAddrV4
  priceOracleUpdateIntervalSecs : UInt64
  bootstrapPeers : List String
  role : Role
  advertisedListenAddr : Option String

def channelIdFromName (name : String) : Except StroemnetError ChannelId :=
  if name = "kaspa-tn10" then .ok .kaspaTn10
  else if name = "ethereum-sepolia" then .ok .ethereumSepolia
  else if name = "igra-galleon" then .ok .igraGalleon
  else .error (.env ("unknown channel '" ++ name ++ "'"))

def required {α : Type} (text : String) : Option α → Except StroemnetError α
  | some a => .ok a
  | none => .error (.env text)

def ChannelConfig.intoSpec (cfg : ChannelConfig) (id : ChannelId) (name : String) :
    Except StroemnetError ChannelSpec := do
  let settings ←
    if id.isEvm then do
      let rpcUrl ← required ("channel '" ++ name ++ "': rpc_url is required") cfg.rpcUrl
      let htlcAddress ← required ("channel '" ++ name ++ "': htlc_address is required")
        cfg.htlcAddress
      pure (ChainSettings.evm rpcUrl htlcAddress)
    else do
      let networkId ← required ("channel '" ++ name ++ "': network_id is required") cfg.networkId
      pure (ChainSettings.kaspa networkId cfg.rpcUrl cfg.coinbaseMaturity cfg.scriptTtlSecs)
  if cfg.minConfirmations.getD 0 = 0 then
    throw (.env ("channel '" ++ name ++
      "': min_confirmations must be set to a non-zero value for EVM channels (reorg safety)"))
  return ⟨settings, cfg.participateCcr, cfg.minConfirmations, cfg.gasPayment, cfg.privateKey⟩

/-- One channel: what a liquidity provider or a claimer must have, then its own settings. -/
def channelSpec (lp : Bool) (entry : String × ChannelConfig) :
    Except StroemnetError (ChannelId × ChannelSpec) := do
  let (name, ch) := entry
  let id ← channelIdFromName name
  if lp && ch.privateKey.isNone then
    throw (.env ("LP mode: channel '" ++ name ++ "' requires private_key"))
  if ch.participateCcr && ch.privateKey.isNone then
    throw (.env ("CCR mode: channel '" ++ name ++ "' requires private_key"))
  if lp && !ch.participateCcr then
    throw (.env ("LP mode: channel '" ++ name ++
      "' requires participate_ccr = true so the LP claims its own settled legs"))
  let spec ← ch.intoSpec id name
  return (id, spec)

def minBuffer (channels : List (ChannelId × ChannelSpec)) : ℕ :=
  (channels.map fun c => c.1.lockTimeSecs).foldr max 0

def trimEndSlashes (s : String) : String :=
  String.ofList (s.toList.reverse.dropWhile (· = '/')).reverse

/-- What a liquidity provider has to set, and zero where another node leaves it out. -/
def tradeSetting {F : Type} [Zero F] (lp : Bool) (name : String) :
    Option F → Except StroemnetError F
  | some x => .ok x
  | none => if lp then .error (.env ("LP mode: " ++ name ++ " is required")) else .ok 0

def DaemonConfig.intoNodeConfig {F : Type} [Zero F] (cfg : DaemonConfig F)
    (dbPeers : List String) : Except StroemnetError (NodeConfig F) := do
  let channels ← cfg.channels.mapM (channelSpec cfg.lp)
  if channels.isEmpty then throw (.env "no channels configured")
  if cfg.lp ∧ cfg.commitBufferSecs.toNat < minBuffer channels then
    throw (.env ("LP mode: commit_buffer_secs (" ++ toString cfg.commitBufferSecs.toNat ++
      ") must be >= " ++ toString (minBuffer channels) ++
      " (max chain lock time among configured channels) to preserve atomic-swap timelock safety"))
  let peers := dbPeers.foldl (fun peers p => if p ∈ peers then peers else peers ++ [p])
    cfg.bootstrapPeers
  let minTradeUsd ← tradeSetting cfg.lp "min_trade_usd" cfg.minTradeUsd
  let maxTradeUsd ← tradeSetting cfg.lp "max_trade_usd" cfg.maxTradeUsd
  let spreadPercent ← tradeSetting cfg.lp "spread_percent" cfg.spreadPercent
  return {
    handler := ⟨minTradeUsd, maxTradeUsd, spreadPercent, cfg.commitBufferSecs⟩
    channels := channels
    bindAddr := some cfg.bindAddr
    priceOracleUpdateIntervalSecs := cfg.priceOracleUpdateIntervalSecs
    bootstrapPeers := peers
    role := if cfg.lp then .lp else .observer
    advertisedListenAddr := some (trimEndSlashes cfg.externalHostname) }

theorem intoNodeConfig_commitBufferSecs {F : Type} [Zero F] {cfg : DaemonConfig F}
    {dbPeers : List String} {node : NodeConfig F} (hok : cfg.intoNodeConfig dbPeers = .ok node) :
    node.handler.commitBufferSecs = cfg.commitBufferSecs := by
  unfold DaemonConfig.intoNodeConfig at hok
  simp only [bind_eq_ok, guard_eq_ok] at hok
  obtain ⟨channels, -, -, -, minTradeUsd, -, maxTradeUsd, -, spreadPercent, -, hnode⟩ := hok
  cases hnode
  rfl

end Stroemnet.Daemon
