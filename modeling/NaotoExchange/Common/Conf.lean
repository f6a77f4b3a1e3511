import Mathlib

/-!
# Sizes

The constants of `system_conf.hpp` that the modelled components use, and the faults a component
can run into.
-/

namespace Naoto

/-- How many assets a client can hold. -/
def maxPositions : Nat := 16

/-- The clients of the account service. -/
def maxClients : Nat := 1024

/-- The assets of the exchange. -/
def maxAssets : Nat := 128

/-- The clients of a gateway. -/
def gatewayMaxClients : Nat := 128

/-- How many reports the gateway keeps for a replay. -/
def gatewayUpdateBufferSize : Nat := 8192

/-- Orders per batch. -/
def gatewayEpollReceiveBatchSize : Nat := 16

/-- Answers per batch. -/
def gatewayClientRequestResponseBatchSize : Nat := 16

/-- Prices per side. -/
def meMaxPriceLevels : Nat := 8192

/-- Resting orders, both sides together. -/
def meOrderNodePoolSize : Nat := 32768

/-- Levels, both sides together. -/
def mePriceLevelPoolSize : Nat := 8192

/-- Nodes of one side's index of prices. -/
def meSkipListNodePoolSize : Nat := 8192

/-- `std::bit_ceil(MeMaxOrderNodes * 2 / 16)`: the buckets of the map of orders, of 16 slots each.
-/
def meOrderMapSize : Nat := 4096

/-- `std::bit_ceil(MeMaxPriceLevels * 2 / 16)`: the buckets of a side's hash map, of 16 slots each.
-/
def meFastMapSize : Nat := 1024

/-- `std::bit_width(MeMaxPriceLevels)`. -/
def meSkipListMaxLevel : Nat := 14

/-- What stops the process: a null pointer followed, `std::terminate`, or a loop that a valid
structure never makes this long. -/
inductive Fault where
  | nullDeref
  | terminate
  | outOfFuel
  deriving DecidableEq, Repr

end Naoto
