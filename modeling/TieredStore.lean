import TieredStore.Backing.RehearsedStore
import TieredStore.Backing.Script
import TieredStore.Cache.Overlooking
import TieredStore.Expiry.Peer
import TieredStore.Main
import TieredStore.Proofs.Cache.Lanes
import TieredStore.Proofs.Cache.LatestPut
import TieredStore.Proofs.Cache.OneShard
import TieredStore.Proofs.Expiry.LastSighting
import TieredStore.Proofs.Tiers.Refused
import TieredStore.Proofs.Cache.Inclusion
import TieredStore.Proofs.Cache.Bounds
import TieredStore.Proofs.Tiers.CacheBounds
import TieredStore.Proofs.Cache.RecentKeys
import TieredStore.Proofs.Tiers.RecentAccesses
import TieredStore.Proofs.Tiers.Destroyed
import TieredStore.Proofs.Backing.Patience
import TieredStore.Proofs.Expiry.Tracked
import TieredStore.Proofs.Tiers.Stats
import TieredStore.Proofs.Tiers.Assembly
import TieredStore.Proofs.Tiers.Residency
import TieredStore.Proofs.Tiers.Walk
import TieredStore.Proofs.Expiry.Watched
import TieredStore.Proofs.Text.Encoding
import TieredStore.Proofs.Text.Words
import TieredStore.Proofs.Shell.Phrases
import TieredStore.Proofs.Shell.Dictionary
import TieredStore.Proofs.Tiers.PartialReads
import TieredStore.Proofs.Tiers.TwoSections
import TieredStore.Proofs.Expiry.Intervals
import TieredStore.Proofs.Shell.Sightings
import TieredStore.Proofs.Digest.Fnv
import TieredStore.Proofs.Cache.StaleArrivals
import TieredStore.Proofs.ByteCount.Reading
import TieredStore.Proofs.Shell.Replies
import TieredStore.Proofs.Cache.InverseMaps
import TieredStore.Proofs.Cache.LiveArrivals
