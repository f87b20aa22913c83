import Arti.Sendme.Window
import Arti.Sendme.Run
import Arti.Sendme.Fifo
import Arti.Sendme.Link
import Arti.Sendme.Waker
import Arti.Sendme.Flow
import Arti.Sendme.Handles
import Arti.Bytes.Codec
import Arti.Bytes.Impls
import Arti.Llcrypto.Base64
import Arti.Llcrypto.Ed25519
import Arti.Path.ExitPath
