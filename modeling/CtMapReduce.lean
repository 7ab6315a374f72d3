import CtMapReduce.Go.Bytes
import CtMapReduce.Go.Base64
import CtMapReduce.Go.Hex
import CtMapReduce.Go.Json
import CtMapReduce.Go.Ascii85
import CtMapReduce.Go.Asn1
import CtMapReduce.Go.Time
import CtMapReduce.Go.Pem
import CtMapReduce.Go.Bufio
import CtMapReduce.Storage.Types
import CtMapReduce.Storage.Serial
import CtMapReduce.Storage.RemoteCache
import CtMapReduce.Storage.MockRemoteCache
import CtMapReduce.Storage.ShardHandles
import CtMapReduce.Storage.FileIssuerMetadata
import CtMapReduce.Storage.Store
import CtMapReduce.Storage.MockBackend
import CtMapReduce.Storage.FirestoreBackend
import CtMapReduce.Storage.DiskDatabase
import CtMapReduce.Storage.Reconstruct
import CtMapReduce.Storage.DiskStore
import CtMapReduce.Storage.DiskStoreShards
import CtMapReduce.Storage.DiskStoreDurability
import CtMapReduce.Storage.FirestoreDocuments
import CtMapReduce.Storage.StoreAttribution
import CtMapReduce.Storage.FirestoreListing
import CtMapReduce.Storage.BackendAgreement
